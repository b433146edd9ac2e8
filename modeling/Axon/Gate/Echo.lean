import Axon.Gate.DeadConnections

/-!
# The echo

`process_data` gives what a client has sent to `::write` and drops it from the read buffer, without
a look at what `::write` returns.  A nonblocking socket takes what it has room for.

* **`WriteResult.took`** : what the socket takes.
* **`held`** : what a connection still has.
* **`Echoes`** : the life of a connection in the loop of its worker, with the bytes read from it and
  the calls of `::write` on its socket.
* **`Quiet`** : between two events both buffers are empty.
* **`echo_conserves_iff`** : no byte is lost exactly while every `::write` takes all it is given.
-/

namespace Axon

open Library

/-- The part of the bytes given to `::write` that the socket takes. -/
def WriteResult.took : WriteResult → List UInt8 → List UInt8
  | .accept n, bytes => bytes.take n
  | .again, _ => []
  | .fail, _ => []

lemma WriteResult.length_took_le (res : WriteResult) (bytes : List UInt8) :
    (res.took bytes).length ≤ bytes.length := by
  cases res with
  | accept n => exact List.length_take_le' n bytes
  | again => exact Nat.zero_le _
  | fail => exact Nat.zero_le _

namespace Gate

open ConnectWorker

/-- What a connection still has, the bytes to be written before those to be processed. -/
def held (c : Connect) : List UInt8 := c.wbuf.elim [] BufferT.bytes ++ c.rbuf.elim [] BufferT.bytes

/-- What has been written back by calls of `::write`, each with what it was given. -/
def writtenBack (writes : List (List UInt8 × WriteResult)) : List UInt8 :=
  writes.flatMap fun x => x.2.took x.1

/-- **The life of the connection in slot `i`** in the loop of its worker: the bytes read from it,
and the calls of `::write` on its socket, each with what it was given and how it ended.  It begins
with `new_connect`; the events that are not for this connection leave its object alone but for the
links of the container.
-/
inductive Echoes (i : ℕ) : ConnectWorker → List UInt8 → List (List UInt8 × WriteResult) → Prop
  | opened {w₀ w : ConnectWorker} {n : ℕ} {used : Finset ℕ} {os : Libc} {a : ℕ}
      {fd hid ip port : ℤ} (hsound : Sound w₀ n used)
      (hrbuf : Calm w₀.rbufBound (w₀.container.connects i))
      (hwbuf : ∀ b, (w₀.container.connects i).wbuf = some b → ∃ q, b.Refines q)
      (hstep : w₀.newConnect os a fd hid ip port = .ok (w, some i)) : Echoes i w [] []
  | read {w w' : ConnectWorker} {received : List UInt8} {writes : List (List UInt8 × WriteResult)}
      {os : Libc} {fd : ℤ} {res : ReadResult} {errno : Bool} {wres : WriteResult}
      {calls : List (ℤ × List UInt8)} {outs : List WriteResult}
      (hrun : Echoes i w received writes) (hos : os.Total) (htarget : w.target fd = some i)
      (hlen : res.bytes.length ≤ 2048) (hres : res ≠ .fail)
      (hstep : w.step (.readable os fd res errno wres) = .ok w')
      (hcalls : w'.echoed = w.echoed ++ calls) (houts : outs.length = calls.length)
      (hagain : ∀ o ∈ outs, o ≠ .fail) :
      Echoes i w' (received ++ res.bytes) (writes ++ (calls.map Prod.snd).zip outs)
  | other {w w' : ConnectWorker} {received : List UInt8} {writes : List (List UInt8 × WriteResult)}
      {ev : Event} (hrun : Echoes i w received writes) (hstep : w.step ev = .ok w')
      (hcore : (w'.container.connects i).core = (w.container.connects i).core) :
      Echoes i w' received writes

/-- **Between two events**: the connection is active and both its buffers are empty. -/
structure Quiet (A : ℕ) (c : Connect) : Prop where
  status : c.status = connActive
  rbuf : ∃ b, c.rbuf = some b ∧ b.Refines [] ∧ b.Bounded A
  wbuf : ∃ b, c.wbuf = some b ∧ b.Refines []

namespace Quiet

variable {A : ℕ} {c c' : Connect}

lemma held_eq (h : Quiet A c) : held c = [] := by
  obtain ⟨b, hb, hr, -⟩ := h.rbuf
  obtain ⟨b', hb', hr'⟩ := h.wbuf
  rw [held, hb, hb', Option.elim_some, Option.elim_some, hr.bytes_eq, hr'.bytes_eq,
    List.append_nil]

lemma congr (h : Quiet A c) (hcore : c'.core = c.core) : Quiet A c' := by
  have hstatus : c'.core.status = c.core.status := congrArg Connect.status hcore
  have hr : c'.core.rbuf = c.core.rbuf := congrArg Connect.rbuf hcore
  have hw : c'.core.wbuf = c.core.wbuf := congrArg Connect.wbuf hcore
  obtain ⟨b, hb, hcalm⟩ := h.rbuf
  obtain ⟨b', hb', hempty⟩ := h.wbuf
  exact ⟨hstatus.trans h.status, ⟨b, hr.trans hb, hcalm⟩, ⟨b', hw.trans hb', hempty⟩⟩

end Quiet

section Steps

variable {w w' : ConnectWorker} {n i a : ℕ} {used : Finset ℕ} {os : Libc} {fd hid ip port : ℤ}

/-- **`new_connect`** makes both buffers ready. -/
lemma quiet_newConnect (hsound : Sound w n used) (hrbuf : Calm w.rbufBound (w.container.connects i))
    (hwbuf : ∀ b, (w.container.connects i).wbuf = some b → ∃ q, b.Refines q)
    (hstep : w.newConnect os a fd hid ip port = .ok (w', some i)) :
    Quiet w.rbufBound (w'.container.connects i) := by
  have hu := hsound.usable
  have hr : i32 w.rbufSize = w.rbufSize := by rw [← hsound.rsize, i32_of_lt hu.rsize_lt]
  have hrpos : 0 < w.rbufSize := hsound.rsize ▸ hu.rsize_pos
  have hrlt : w.rbufSize < 2 ^ 31 := hsound.rsize ▸ hu.rsize_lt
  have hw : i32 w.wbufSize = w.wbufSize := by rw [← hsound.wsize, i32_of_lt hu.wsize_lt]
  have hwlt : w.wbufSize < 2 ^ 31 := hsound.wsize ▸ hu.wsize_lt
  have hle : w.rbufSize ≤ w.rbufBound := Nat.le_add_right _ _
  have hlt : w.rbufBound < 2 ^ 32 := by
    rw [rbufBound]
    omega
  obtain ⟨⟨t, vfd⟩, halloc, hstep⟩ := bind_eq_ok hstep
  dsimp only at hstep
  rcases hsound.slots.alloc_of_ok halloc with ⟨rfl, rfl, -⟩ |
    ⟨-, j, c₁, rfl, -, -, hinit₁, rfl, -⟩
  · rw [if_pos (by decide)] at hstep
    exact absurd (Prod.mk.inj (Except.ok.inj hstep)).2 (by simp)
  rw [if_neg (by omega)] at hstep
  split at hstep
  · exact absurd hstep (by simp)
  rename_i c hget
  obtain ⟨⟨c₂, ret⟩, hinit₂, hstep⟩ := bind_eq_ok hstep
  obtain ⟨-, -, -, rb₁, wb₁, hrb₁, hwb₁, hc₁⟩ := ConnectContainer.init_eq_ok hinit₁
  obtain ⟨rfl, -, -, rb₂, wb₂, hrb₂, hwb₂, rfl⟩ := ConnectContainer.init_eq_ok hinit₂
  dsimp only at hstep
  rw [if_neg (by decide)] at hstep
  obtain ⟨⟨p, v⟩, -, hstep⟩ := bind_eq_ok hstep
  obtain ⟨rfl, hi⟩ := Prod.mk.inj (Except.ok.inj hstep)
  obtain rfl : j = i := by simpa using hi
  -- the object made ready the second time is the one of the first
  have hc : c.core = c₁.core := by
    rw [ConnectContainer.getConnect] at hget
    split_ifs at hget
    rw [← Option.some.inj hget, Int.toNat_natCast]
    exact ConnectContainer.enlist_core_self _ j _
  rw [hc₁] at hc
  have hcr : c.core.rbuf = some rb₁ := congrArg Connect.rbuf hc
  have hcw : c.core.wbuf = some wb₁ := congrArg Connect.wbuf hc
  rw [show c.rbuf = some rb₁ from hcr, hr, Int.toNat_natCast] at hrb₂
  rw [show c.wbuf = some wb₁ from hcw, hw, Int.toNat_natCast] at hwb₂
  rw [hsound.rsize, hr, Int.toNat_natCast] at hrb₁
  rw [hsound.wsize, hw, Int.toNat_natCast] at hwb₁
  have hcalm₁ := readyBuffer_calm hrbuf hrpos hle hlt hrb₁
  have hcalm₂ := readyBuffer_calm (fun b hb => Option.some.inj hb ▸ hcalm₁) hrpos hle hlt hrb₂
  have hempty₁ := readyBuffer_refines hwbuf (by omega) hwb₁
  have hempty₂ := readyBuffer_refines (fun b hb => ⟨[], Option.some.inj hb ▸ hempty₁⟩) (by omega)
    hwb₂
  simp only [setConn, Int.toNat_natCast, Function.update_self]
  exact ⟨rfl, ⟨rb₂, rfl, hcalm₂⟩, ⟨wb₂, rfl, hempty₂⟩⟩

/-- **A read event for the connection** leaves it quiet; what was read has been given to `::write`.
-/
lemma Quiet.read {A : ℕ} (h : Quiet A (w.container.connects i)) (hA : 2176 ≤ A)
    (hlt : A + 2048 < 2 ^ 32 - 128) (hos : os.Total) {res : ReadResult}
    (hlen : res.bytes.length ≤ 2048) (hres : res ≠ .fail) (errno : Bool) (wres : WriteResult)
    (htarget : w.target fd = some i) :
    ∃ w', w.step (.readable os fd res errno wres) = .ok w' ∧ w'.echoed = w.echo i res.bytes ∧
      Quiet A (w'.container.connects i) := by
  obtain ⟨b, hb, hr, hbd⟩ := h.rbuf
  obtain ⟨b', hr', hbd', hread⟩ :=
    onRead_spares hos h.status hb hr hbd hA hlt errno wres hlen hres
  refine ⟨_, (poll_of_target htarget).trans hread, rfl, ?_⟩
  simp only [withRbuf, setConn, Function.update_self]
  exact ⟨h.status, ⟨b', rfl, hr', hbd'⟩, h.wbuf⟩

end Steps

/-- **What the life of a connection keeps**: it is quiet, and all that was read has been given to
`::write`. -/
lemma Echoes.quiet {i : ℕ} {w : ConnectWorker} {received : List UInt8}
    {writes : List (List UInt8 × WriteResult)} (h : Echoes i w received writes) :
    (∃ A, 2176 ≤ A ∧ A + 2048 < 2 ^ 32 - 128 ∧ Quiet A (w.container.connects i)) ∧
      writes.flatMap Prod.fst = received := by
  induction h with
  | @opened w₀ _ _ _ _ _ _ _ _ _ hsound hrbuf hwbuf hstep =>
      have hlt : w₀.rbufSize < 2 ^ 31 := hsound.rsize ▸ hsound.usable.rsize_lt
      refine ⟨⟨w₀.rbufBound, ?_, ?_, quiet_newConnect hsound hrbuf hwbuf hstep⟩, rfl⟩
      · rw [rbufBound]
        omega
      · rw [rbufBound]
        omega
  | @read w w' _ _ _ _ res errno wres calls outs _ hos htarget hlen hres hstep hcalls houts _ ih =>
      obtain ⟨⟨A, hA, hlt, hquiet⟩, hgiven⟩ := ih
      obtain ⟨w₁, hstep₁, hecho, hquiet₁⟩ := hquiet.read hA hlt hos hlen hres errno wres htarget
      obtain rfl := Except.ok.inj (hstep.symm.trans hstep₁)
      refine ⟨⟨A, hA, hlt, hquiet₁⟩, ?_⟩
      have hfst : ((calls.map Prod.snd).zip outs).flatMap Prod.fst =
          (calls.map Prod.snd).flatten := by
        rw [List.flatMap_def, List.map_fst_zip (by simp [houts])]
      rw [List.flatMap_append, hgiven, hfst, List.append_cancel_left_eq]
      rw [hecho, ConnectWorker.echo] at hcalls
      split_ifs at hcalls with hempty
      · obtain rfl := List.self_eq_append_right.mp hcalls
        exact hempty.symm
      · obtain rfl := List.append_cancel_left hcalls
        simp
  | other _ _ hcore ih =>
      obtain ⟨⟨A, hA, hlt, hquiet⟩, hgiven⟩ := ih
      exact ⟨⟨A, hA, hlt, hquiet.congr hcore⟩, hgiven⟩

/-- All that was given has been written back exactly if every call took all. -/
lemma writtenBack_eq_iff (writes : List (List UInt8 × WriteResult)) :
    writtenBack writes = writes.flatMap Prod.fst ↔ ∀ x ∈ writes, x.2.took x.1 = x.1 := by
  have hle : ∀ l : List (List UInt8 × WriteResult),
      (writtenBack l).length ≤ (l.flatMap Prod.fst).length := by
    intro l
    induction l with
    | nil => exact le_rfl
    | cons x l ih =>
        rw [writtenBack, List.flatMap_cons, List.flatMap_cons, List.length_append,
          List.length_append]
        exact Nat.add_le_add (x.2.length_took_le x.1) ih
  induction writes with
  | nil => simp [writtenBack]
  | cons x l ih =>
      rw [List.forall_mem_cons]
      refine Iff.trans ?_ (and_congr_right' ih)
      rw [writtenBack, List.flatMap_cons, List.flatMap_cons]
      constructor
      · intro heq
        -- no part can be longer than what was given, so none is shorter
        have hlen := congrArg List.length heq
        have htook := x.2.length_took_le x.1
        have hrest := hle l
        rw [List.length_append, List.length_append] at hlen
        rw [writtenBack] at hrest
        exact List.append_inj heq (by omega)
      · rintro ⟨htook, hrest⟩
        rw [htook]
        exact congrArg _ hrest

/-- **The echo loses no byte** as long as every `::write` takes all it is given, and only then: in
every state of a connection's life, what has been written back and what the connection still has
are the bytes read if and only if all calls of `::write` so far were whole.  The next read event
returns. -/
theorem echo_conserves_iff {i : ℕ} {w : ConnectWorker} {received : List UInt8}
    {writes : List (List UInt8 × WriteResult)} (h : Echoes i w received writes) :
    (writtenBack writes ++ held (w.container.connects i) = received ↔
      ∀ x ∈ writes, x.2.took x.1 = x.1) ∧
    ∀ os fd res errno wres, os.Total → res.bytes.length ≤ 2048 → res ≠ .fail →
      w.target fd = some i → ∃ w', w.step (.readable os fd res errno wres) = .ok w' := by
  obtain ⟨⟨A, hA, hlt, hquiet⟩, hgiven⟩ := h.quiet
  constructor
  · rw [hquiet.held_eq, List.append_nil, ← hgiven]
    exact writtenBack_eq_iff writes
  · intro os fd res errno wres hos hlen hres htarget
    obtain ⟨w', hstep, -⟩ := hquiet.read hA hlt hos hlen hres errno wres htarget
    exact ⟨w', hstep⟩

/-- A client on the descriptor 2 has sent three bytes, and `::write` has ended with `out`. -/
lemma echoes_three (out : WriteResult) (hout : out ≠ .fail) :
    ∃ w, Echoes 0 w [7, 8, 9] [([7, 8, 9], out)] := by
  have hstart : startSome 4 = .ok _ := rfl
  obtain ⟨ho, -⟩ := startSome_eq_ok hstart (by decide)
  have h₀ : Echoes 0 _ [] [] := .opened ho.sound (fun b hb => by cases hb) (fun b hb => by cases hb)
    (show ConnectWorker.newConnect zeroLibc 0 _ 2 1 0x7F000001 80 = .ok (_, some 0) from rfl)
  obtain ⟨⟨A, hA, hlt, hquiet⟩, -⟩ := h₀.quiet
  obtain ⟨w', hstep, hecho, -⟩ := hquiet.read hA hlt zeroLibc_total
    (show (ReadResult.data [7, 8, 9]).bytes.length ≤ 2048 by decide) (by simp) false .again
    (show ConnectWorker.target _ 2 = some 0 from rfl)
  exact ⟨w', h₀.read zeroLibc_total rfl (by decide) (by simp) hstep
    (hecho.trans (show _ = _ ++ [(2, [7, 8, 9])] from rfl)) (show [out].length = 1 from rfl)
    (by simpa using hout)⟩

/-- Three bytes echoed by a whole `::write`. -/
theorem echo_conserves_three : ∃ w, Echoes 0 w [7, 8, 9] [([7, 8, 9], .accept 3)] ∧
    writtenBack [([7, 8, 9], .accept 3)] ++ held (w.container.connects 0) = [7, 8, 9] := by
  obtain ⟨w, h⟩ := echoes_three (.accept 3) (by simp)
  exact ⟨w, h, (echo_conserves_iff h).1.mpr (by decide)⟩

/-- **A short write**: of three bytes the socket takes two, and the third is nowhere. -/
theorem echo_loses : ∃ w, Echoes 0 w [7, 8, 9] [([7, 8, 9], .accept 2)] ∧
    held (w.container.connects 0) = [] ∧
    writtenBack [([7, 8, 9], .accept 2)] ++ held (w.container.connects 0) ≠ [7, 8, 9] := by
  obtain ⟨w, h⟩ := echoes_three (.accept 2) (by simp)
  obtain ⟨⟨A, -, -, hquiet⟩, -⟩ := h.quiet
  refine ⟨w, h, hquiet.held_eq, ?_⟩
  rw [hquiet.held_eq]
  decide

end Gate

end Axon
