import Axon.Library.Replay
import Axon.Core.TpipeDelivery

/-!
# A pipe whose socket is used more than once

`try_write` never removes from the write buffer what the socket has taken.  Whatever the socket does
and in whichever order the two sides write, flush and read, the stream in one direction is therefore
the prefixes of everything written there that the socket took, one after the other.

* **`TpipeT.Carries`** : what has been written on the two sides, and what each has received.
* **`Mailbox.Trace`** : runs of the two sides with their events.
* **`stream_replayed`** : the bytes received and in flight, in every run.
* **`delivered_replayed`** : the messages called back about, when the socket takes whole frames.
* **`delivered_count`** : how often each of them is called back about.
-/

namespace Axon

open Library

/-! ## What a pipe carries -/

namespace TpipeT

/-- The write buffer of every side `s` holds `W s`, and `B s` is what the other side has received
from it. -/
structure Carries (t : TpipeT) (W B : Fin 2 → List UInt8) : Prop where
  fds : (t.pinfo 0).fd ≠ (t.pinfo 1).fd
  poller : ∀ s, (t.pinfo s).poller = true
  wbuf : ∀ s, (t.pinfo s).wbuf.Refines (W s)
  reading : ∀ s, t.Reading (peer s) (B s)

/-- What the socket has taken out of `W` when `::write` ends with `res`. -/
def takenBy (W : List UInt8) : WriteResult → List UInt8
  | .accept n => W.take n
  | _ => []

namespace Carries

variable {t : TpipeT} {W B : Fin 2 → List UInt8} (h : t.Carries W B)

include h

/-- The calls on the pollers do not matter. -/
lemma congr {t' : TpipeT} (hsame : ∀ s, (t.pinfo s).Same (t'.pinfo s)) : t'.Carries W B where
  fds := by
    rw [(hsame 0).fd, (hsame 1).fd]
    exact h.fds
  poller s := (hsame s).poller.trans (h.poller s)
  wbuf s := by
    rw [(hsame s).wbuf]
    exact h.wbuf s
  reading s := (h.reading s).congr (hsame (peer s))

/-- An attempt to flush changes nothing and hands a prefix of the write buffer to the socket. -/
lemma tryWrite (side : Fin 2) (res : WriteResult) :
    (t.tryWrite side res).1.Carries W B ∧ (t.tryWrite side res).2 = takenBy (W side) res := by
  refine ⟨h.congr (t.tryWrite_same side res), ?_⟩
  rw [t.tryWrite_bytes, (h.wbuf side).bytes_eq]
  cases res <;> rfl

/-- Another write buffer on one side. -/
lemma setWbuf {side : Fin 2} {wbuf : BufferT} {X : List UInt8} (hw : wbuf.Refines X) :
    (t.modify side fun p => { p with wbuf }).Carries (Function.update W side X) B := by
  have hinfo : ∀ s, ∃ w, w.Refines (Function.update W side X s) ∧
      (t.modify side fun p => { p with wbuf }).pinfo s = { t.pinfo s with wbuf := w } := by
    intro s
    by_cases hs : s = side
    · subst hs
      exact ⟨wbuf, by rwa [Function.update_self], modify_pinfo_self t s _⟩
    · refine ⟨(t.pinfo s).wbuf, ?_, modify_pinfo_of_ne t _ hs⟩
      rw [Function.update_of_ne hs]
      exact h.wbuf s
  constructor
  · obtain ⟨w₀, -, h₀⟩ := hinfo 0
    obtain ⟨w₁, -, h₁⟩ := hinfo 1
    rw [h₀, h₁]
    exact h.fds
  · intro s
    obtain ⟨w, -, hs⟩ := hinfo s
    rw [hs]
    exact h.poller s
  · intro s
    obtain ⟨w, hw, hs⟩ := hinfo s
    rw [hs]
    exact hw
  · intro s
    obtain ⟨w, -, hs⟩ := hinfo (peer s)
    have hr := h.reading s
    constructor <;> rw [hs]
    · exact hr.cbRead
    · exact hr.rbuf
    · exact hr.bounded
    · exact hr.callbacks

/-- **A read event** extends what its side has received by the bytes read. -/
lemma onEvRead {os : Libc} (ht : os.Total) (side : Fin 2) (r : Option (List UInt8))
    (hr : ∀ bytes ∈ r, bytes.length ≤ maxProtoLen) :
    ∃ t', t.onEvRead os (t.pinfo side).fd (readOutcome r) = .ok t' ∧
      t'.Carries W (Function.update B (peer side) (B (peer side) ++ r.getD [])) := by
  have hside := h.reading (peer side)
  rw [peer_peer] at hside
  obtain ⟨buf, cbs, hread, hside'⟩ := hside.onEvRead ht (sideOf_fd h.fds side) r hr
  have hframe := t.setReader_frame side buf cbs
  refine ⟨_, hread, ?_, fun s => ?_, fun s => ?_, fun s => ?_⟩
  · rw [(hframe 0).1, (hframe 1).1]
    exact h.fds
  · rw [(hframe s).2.1]
    exact h.poller s
  · rw [(hframe s).2.2]
    exact h.wbuf s
  · by_cases hs : s = peer side
    · subst hs
      rw [Function.update_self, peer_peer]
      exact hside'
    · rw [Function.update_of_ne hs]
      have hne : peer s ≠ side := by
        intro heq
        rw [← heq, peer_peer] at hs
        exact hs rfl
      have hsame := t.setReader_pinfo_of_ne buf cbs hne
      refine (h.reading s).congr ?_
      rw [hsame]
      exact ⟨rfl, rfl, rfl, rfl, rfl, rfl⟩

section Write

variable {os : Libc} (ht : os.Total) {side : Fin 2} (wrapperType : ℕ) {wrapper pkt : ProtoMsg}
  (hroom : (t.pinfo side).wbuf.end_ + (wrapper.calSize + pkt.calSize) + msgHeaderLen < 2 ^ 32 - 128)
  (res : WriteResult)

include ht hroom

/-- **A write** puts its frame behind what was written before and tries to flush. -/
lemma write (hw : wrapper.Sized) (hp : pkt.Sized) :
    ∃ t', t.write os side wrapperType wrapper pkt res =
        .ok (t', 0, takenBy (W side ++
          SentFrame.encode (wrapperType, Mailbox.payload wrapper pkt)) res) ∧
      t'.Carries (Function.update W side
        (W side ++ SentFrame.encode (wrapperType, Mailbox.payload wrapper pkt))) B := by
  obtain ⟨ws, hws, hwl⟩ := hw
  obtain ⟨ps, hps, hpl⟩ := hp
  have hcan : t.CanWrite side (wrapper.calSize + pkt.calSize) :=
    ⟨h.poller side, by rw [(h.wbuf side).bytes_eq]; exact h.wbuf side, hroom⟩
  have hlen : (Mailbox.payload wrapper pkt).length = wrapper.calSize + pkt.calSize := by
    rw [Mailbox.payload, hws, hps, Option.getD_some, Option.getD_some, List.length_append, hwl, hpl]
  obtain ⟨t', sent, hwrite, -⟩ : ∃ t' sent,
      t.write os side wrapperType wrapper pkt res = .ok (t', 0, sent) ∧ _ :=
    write_appends ht hcan hws hwl hps hpl res
  obtain ⟨wbuf, hrefines, -, -, hflush⟩ := write_eq_ok (h.poller side) ⟨ws, hws, hwl⟩
    ⟨ps, hps, hpl⟩ (h.wbuf side) (by rw [hlen]; exact hroom) hwrite
  obtain ⟨hcarries, htaken⟩ := (h.setWbuf hrefines).tryWrite side res
  rw [Function.update_self] at htaken
  rw [← hflush] at hcarries htaken
  exact ⟨t', by rw [hwrite, ← htaken], hcarries⟩

/-- A write of a message that fails to pack leaves everything as it was. -/
lemma write_refused
    (hnone : wrapper.pack wrapper.calSize = none ∨ pkt.pack pkt.calSize = none) :
    ∃ t', t.write os side wrapperType wrapper pkt res = .ok (t', -1, []) ∧ t'.Carries W B := by
  obtain ⟨b₁, r₁, h₁⟩ := BufferT.prepare_returns ht (t.pinfo side).wbuf
    (pkt.calSize + wrapper.calSize + msgHeaderLen)
  obtain ⟨hr₁, -, -⟩ := BufferT.prepare_refines (h.wbuf side) (by omega) h₁
  have hset : ∀ {wbuf : BufferT}, wbuf.Refines (W side) →
      (t.modify side fun p => { p with wbuf }).Carries W B := by
    intro wbuf hw
    have hsame : (t.modify side fun p => { p with wbuf }).Carries
        (Function.update W side (W side)) B := h.setWbuf hw
    rwa [Function.update_eq_self] at hsame
  rw [TpipeT.write, h.poller side, if_neg (by decide)]
  simp only [h₁, ok_bind]
  cases hws : wrapper.pack wrapper.calSize with
  | none => exact ⟨_, rfl, hset (storeAt_refines hr₁ _ _)⟩
  | some ws =>
      rcases hnone with hnone | hnone
      · exact absurd (hws.symm.trans hnone) (by simp)
      · rw [hnone]
        exact ⟨_, rfl, hset (storeAt_refines (storeAt_refines hr₁ _ _) _ _)⟩

end Write

end Carries

/-- A new pipe carries nothing. -/
lemma carries_init {os : Libc} {sv : Fin 2 → ℤ} {t : TpipeT} (hsv : sv 0 ≠ sv 1)
    (h : TpipeT.new os sv = .ok t) : t.initBoth.Carries (fun _ => []) fun _ => [] := by
  have hi := Mailbox.inv_init hsv h
  refine ⟨hi.fds, hi.poller, hi.wbuf, fun s => ?_⟩
  obtain ⟨B, hB, hpre, -⟩ := hi.stream s
  rwa [(List.append_eq_nil_iff.mp (List.prefix_nil.mp hpre)).1] at hB

end TpipeT

/-! ## Whole frames -/

section Whole

variable {ws : List SentFrame} (hws : ∀ f ∈ ws, SentFrame.Readable f)

include hws

/-- A part of the stream that is nothing but whole frames is the first of them. -/
lemma whole_prefix {c : List UInt8} (hc : c <+: ws.flatMap SentFrame.encode)
    (hwhole : (readFrames c).2 = []) : ∃ j, c = (ws.take j).flatMap SentFrame.encode := by
  induction ws generalizing c with
  | nil => exact ⟨0, List.prefix_nil.mp hc⟩
  | cons f ws ih =>
      obtain ⟨more, hmore⟩ := hc
      cases hstep : frameStep c with
      | none =>
          rw [readFrames, frameExtractor.drain_of_none hstep] at hwhole
          exact ⟨0, hwhole⟩
      | some p =>
          obtain ⟨g, rest⟩ := p
          have hf := (hws f (by simp)).frameStep_encode (ws.flatMap SentFrame.encode)
          have hg := frameExtractor.stable more hstep
          rw [show frameExtractor.step (c ++ more) = frameStep (c ++ more) from rfl, hmore,
            List.flatMap_cons, hf] at hg
          obtain ⟨-, hrest⟩ := Prod.mk.inj (Option.some.inj hg)
          rw [readFrames, frameExtractor.drain_of_some hstep] at hwhole
          obtain ⟨j, hj⟩ := ih (fun k hk => hws k (by simp [hk])) ⟨more, hrest.symm⟩ hwhole
          refine ⟨j + 1, ?_⟩
          rw [List.flatMap_cons, hrest, ← List.append_assoc] at hmore
          rw [List.take_succ_cons, List.flatMap_cons, ← hj]
          exact List.append_cancel_right hmore

/-- Any number of such parts are frames that were written. -/
lemma whole_flatten {cs : List (List UInt8)} (hcs : ∀ c ∈ cs, c <+: ws.flatMap SentFrame.encode)
    (hwhole : ∀ c ∈ cs, (readFrames c).2 = []) :
    ∃ gs, gs ⊆ ws ∧ cs.flatten = gs.flatMap SentFrame.encode := by
  induction cs with
  | nil => exact ⟨[], by simp, rfl⟩
  | cons c cs ih =>
      obtain ⟨j, hj⟩ := whole_prefix hws (hcs c (by simp)) (hwhole c (by simp))
      obtain ⟨gs, hgs, hflat⟩ := ih (fun d hd => hcs d (by simp [hd]))
        (fun d hd => hwhole d (by simp [hd]))
      refine ⟨ws.take j ++ gs, ?_, ?_⟩
      · intro g hg
        rcases List.mem_append.mp hg with hg | hg
        · exact List.mem_of_mem_take hg
        · exact hgs hg
      · rw [List.flatten_cons, List.flatMap_append, hflat, ← hj]

/-- **A side is called back only about frames that were written**, when the stream it has received
is a part of whole frames, taken from the front in any number of attempts. -/
lemma called_back {cs : List (List UInt8)} (hcs : ∀ c ∈ cs, c <+: ws.flatMap SentFrame.encode)
    (hwhole : ∀ c ∈ cs, (readFrames c).2 = []) {B more : List UInt8}
    (hB : B ++ more = cs.flatten) :
    ∀ f ∈ (readFrames B).1, ∃ g ∈ ws, f = (SentFrame.header g, g.2) := by
  obtain ⟨gs, hgs, hflat⟩ := whole_flatten hws hcs hwhole
  intro f hf
  have hpre : (readFrames B).1 <+: (readFrames (B ++ more)).1 :=
    frameExtractor.drain_prefix B more
  rw [hB, hflat, readFrames_encode gs fun g hg => hws g (hgs hg)] at hpre
  obtain ⟨g, hg, rfl⟩ := List.mem_map.mp (hpre.subset hf)
  exact ⟨g, hgs hg, rfl⟩

/-- **It is called back about all of them** when the last attempt has taken everything. -/
lemma called_back_all {cs : List (List UInt8)} (hcs : ∀ c ∈ cs, c <+: ws.flatMap SentFrame.encode)
    (hwhole : ∀ c ∈ cs, (readFrames c).2 = [])
    (hlast : cs.getLast? = some (ws.flatMap SentFrame.encode)) :
    ∀ g ∈ ws, (SentFrame.header g, g.2) ∈ (readFrames cs.flatten).1 := by
  obtain ⟨init, rfl⟩ := List.getLast?_eq_some_iff.mp hlast
  obtain ⟨gs, hgs, hflat⟩ := whole_flatten hws
    (fun c hc => hcs c (List.mem_append_left _ hc))
    (fun c hc => hwhole c (List.mem_append_left _ hc))
  intro g hg
  have hall : (init ++ [ws.flatMap SentFrame.encode]).flatten
      = (gs ++ ws).flatMap SentFrame.encode := by
    rw [List.flatten_append, hflat, List.flatMap_append]
    simp
  rw [hall, readFrames_encode (gs ++ ws) fun k hk => ?_]
  · exact List.mem_map_of_mem (List.mem_append_right gs hg)
  · rcases List.mem_append.mp hk with hk | hk
    · exact hws k (hgs hk)
    · exact hws k hk

end Whole

/-! ## Runs of the two sides -/

/-- The number of bytes `::write` says it has taken, if it does not fail. -/
def WriteResult.counts : WriteResult → List ℕ
  | .accept n => [n]
  | _ => []

namespace MailEvent

/-- Whether an event writes a frame on a side: a `write` there whose two messages pack. -/
def Writes (s side : Fin 2) (wrapper pkt : ProtoMsg) : Prop :=
  side = s ∧ (wrapper.pack wrapper.calSize).isSome ∧ (pkt.pack pkt.calSize).isSome

instance (s side : Fin 2) (wrapper pkt : ProtoMsg) : Decidable (Writes s side wrapper pkt) :=
  inferInstanceAs (Decidable (_ ∧ _ ∧ _))

/-- The frames an event writes on a side. -/
def frames (s : Fin 2) : MailEvent → List SentFrame
  | .write _ side wrapperType wrapper pkt _ =>
      if Writes s side wrapper pkt then [(wrapperType, Mailbox.payload wrapper pkt)] else []
  | _ => []

/-- The numbers of bytes taken from a side in an event.  `write` calls `try_write` only when it has
written a frame. -/
def took (s : Fin 2) : MailEvent → List ℕ
  | .write _ side _ wrapper pkt res => if Writes s side wrapper pkt then res.counts else []
  | .evWrite side res => if side = s then res.counts else []
  | .evRead _ _ _ => []

end MailEvent

namespace Mailbox

/-- What a call promises: messages that pack into the size they announce if they pack at all, room
in the 32-bit positions of the write buffer, a `::write` that takes no more than it is offered, and
a `::read` that gives no more than there is, nor than it was asked for. -/
def Fair (m : Mailbox) : MailEvent → Prop
  | .write os side _ wrapper pkt res =>
      os.Total ∧ wrapper.TrueSize ∧ pkt.TrueSize ∧
        (m.pipe.pinfo side).wbuf.end_ + (wrapper.calSize + pkt.calSize) + msgHeaderLen
          < 2 ^ 32 - 128 ∧
        ∀ n, res = .accept n →
          n ≤ (m.pipe.pinfo side).wbuf.len + (wrapper.calSize + pkt.calSize) + msgHeaderLen
  | .evWrite side res => ∀ n, res = .accept n → n ≤ (m.pipe.pinfo side).wbuf.len
  | .evRead os side n =>
      os.Total ∧ ∀ k ∈ n, k ≤ (m.inFlight (peer side)).length ∧ k ≤ maxProtoLen

/-- Runs of the two sides, with the events in order. -/
inductive Trace (m₀ : Mailbox) : List MailEvent → Mailbox → Prop
  | refl : Trace m₀ [] m₀
  | snoc {evs : List MailEvent} {e : MailEvent} {m m' : Mailbox} (h : Trace m₀ evs m)
      (hf : m.Fair e) (hs : m.step e = .ok m') : Trace m₀ (evs ++ [e]) m'

/-- Everything written on a side, as bytes. -/
def bytesWritten (m : Mailbox) (s : Fin 2) : List UInt8 := (m.written s).flatMap SentFrame.encode

/-- How many bytes the socket took in each attempt to flush a side. -/
def attempts (evs : List MailEvent) (s : Fin 2) : List ℕ := evs.flatMap fun e => e.took s

lemma attempts_concat (evs : List MailEvent) (e : MailEvent) :
    attempts (evs ++ [e]) = fun s => attempts evs s ++ e.took s := by
  funext s
  simp [attempts]

/-- **What holds in every state of a run**: the write buffer has everything written, and what is
received or in flight are prefixes of it. -/
structure Replays (m : Mailbox) (ns : Fin 2 → List ℕ) (B : Fin 2 → List UInt8) : Prop where
  carries : m.pipe.Carries m.bytesWritten B
  le : ∀ s, ∀ n ∈ ns s, n ≤ (m.bytesWritten s).length
  stream : ∀ s, B s ++ m.inFlight s = replay (m.bytesWritten s) (ns s)

namespace Replays

variable {m : Mailbox} {ns : Fin 2 → List ℕ} {B : Fin 2 → List UInt8} (h : m.Replays ns B)

include h

/-- More bytes written on a side. -/
lemma append {side : Fin 2} {f : SentFrame} {pipe : TpipeT}
    (hpipe : pipe.Carries (Function.update m.bytesWritten side
      (m.bytesWritten side ++ SentFrame.encode f)) B) :
    Replays { m with pipe, written := Function.update m.written side (m.written side ++ [f]) }
      ns B := by
  have hbytes : bytesWritten
      { m with pipe, written := Function.update m.written side (m.written side ++ [f]) } =
      Function.update m.bytesWritten side (m.bytesWritten side ++ SentFrame.encode f) := by
    funext s
    by_cases hs : s = side
    · subst hs
      simp [bytesWritten]
    · simp [bytesWritten, hs]
  have happ : ∀ s, ∃ X, Function.update m.bytesWritten side
      (m.bytesWritten side ++ SentFrame.encode f) s = m.bytesWritten s ++ X := by
    intro s
    by_cases hs : s = side
    · subst hs
      exact ⟨SentFrame.encode f, Function.update_self ..⟩
    · exact ⟨[], by rw [Function.update_of_ne hs, List.append_nil]⟩
  constructor
  · rw [hbytes]
    exact hpipe
  · intro s n hn
    obtain ⟨X, hX⟩ := happ s
    rw [hbytes, hX, List.length_append]
    exact Nat.le_add_right_of_le (h.le s n hn)
  · intro s
    obtain ⟨X, hX⟩ := happ s
    rw [hbytes, hX, replay_append_left (h.le s)]
    exact h.stream s

/-- An attempt to flush a side. -/
lemma flush {side : Fin 2} {res : WriteResult} {pipe : TpipeT}
    (hpipe : pipe.Carries m.bytesWritten B)
    (hres : ∀ n, res = .accept n → n ≤ (m.bytesWritten side).length) :
    Replays ({ m with pipe }.take side (TpipeT.takenBy (m.bytesWritten side) res))
      (fun s => ns s ++ if side = s then res.counts else []) B := by
  refine ⟨hpipe, fun s n hn => ?_, fun s => ?_⟩
  · rcases List.mem_append.mp hn with hold | hnew
    · exact h.le s n hold
    · split_ifs at hnew with hs
      · subst hs
        cases res with
        | accept k =>
            obtain rfl := List.mem_singleton.mp hnew
            exact hres n rfl
        | _ => exact absurd hnew (by simp [WriteResult.counts])
      · exact absurd hnew (by simp)
  · show _ = replay (m.bytesWritten s) _
    by_cases hs : side = s
    · subst hs
      rw [if_pos rfl]
      simp only [Mailbox.take, Function.update_self]
      rw [← List.append_assoc, h.stream side]
      cases res with
      | accept n => rw [WriteResult.counts, replay_append, replay_singleton, TpipeT.takenBy]
      | _ => simp [WriteResult.counts, TpipeT.takenBy]
    · rw [if_neg hs, List.append_nil]
      simp only [Mailbox.take, Function.update_of_ne (Ne.symm hs)]
      exact h.stream s

/-- Bytes read on a side. -/
lemma read {os : Libc} (ht : os.Total) (side : Fin 2) {n : Option ℕ}
    (hn : ∀ k ∈ n, k ≤ maxProtoLen) :
    ∃ m' B', m.step (.evRead os side n) = .ok m' ∧ m'.Replays ns B' ∧ m'.written = m.written := by
  set r := n.map fun n => (m.inFlight (peer side)).take n with hr
  have hlen : ∀ bytes ∈ r, bytes.length ≤ maxProtoLen := by
    intro bytes hbytes
    simp only [hr, Option.mem_def, Option.map_eq_some_iff] at hbytes
    obtain ⟨k, hk, rfl⟩ := hbytes
    exact (List.length_take_le _ _).trans (hn k hk)
  obtain ⟨pipe, hread, hpipe⟩ := h.carries.onEvRead ht side r hlen
  have hsplit : r.getD [] ++ (m.inFlight (peer side)).drop (n.getD 0) = m.inFlight (peer side) := by
    cases n with
    | none => simp [hr]
    | some k => simp [hr]
  refine ⟨{ m with
    pipe
    inFlight := Function.update m.inFlight (peer side)
      ((m.inFlight (peer side)).drop (n.getD 0)) }, _, ?_, ⟨hpipe, h.le, fun s => ?_⟩, rfl⟩
  · rw [Mailbox.step]
    simp only [← hr, hread, ok_bind]
    rfl
  · by_cases hs : s = peer side
    · subst hs
      simp only [Function.update_self]
      rw [List.append_assoc, hsplit]
      exact h.stream _
    · simp only [Function.update_of_ne hs]
      exact h.stream s

section Write

variable {os : Libc} {side : Fin 2} {wrapperType : ℕ} {wrapper pkt : ProtoMsg} {res : WriteResult}
  (hf : m.Fair (.write os side wrapperType wrapper pkt res))

include hf

/-- A frame written on a side. -/
lemma write (hw : wrapper.Sized) (hp : pkt.Sized) :
    ∃ m', m.step (.write os side wrapperType wrapper pkt res) = .ok m' ∧
      m'.Replays (fun s => ns s ++ if side = s then res.counts else []) B ∧
      m'.written = Function.update m.written side
        (m.written side ++ [(wrapperType, payload wrapper pkt)]) := by
  obtain ⟨ht, -, -, hroom, hres⟩ := hf
  obtain ⟨pipe, hwrite, hpipe⟩ := h.carries.write ht wrapperType hroom res hw hp
  obtain ⟨ws, hws, hwl⟩ := hw
  obtain ⟨ps, hps, hpl⟩ := hp
  have hlen : (SentFrame.encode (wrapperType, payload wrapper pkt)).length
      = wrapper.calSize + pkt.calSize + msgHeaderLen := by
    rw [SentFrame.encode, List.length_append, length_packHeader, payload, hws, hps,
      Option.getD_some, Option.getD_some, List.length_append, hwl, hpl]
    exact Nat.add_comm ..
  have happ := h.append hpipe
  have hbytes : bytesWritten
      { m with
        pipe
        written := Function.update m.written side
          (m.written side ++ [(wrapperType, payload wrapper pkt)]) } side
      = m.bytesWritten side ++ SentFrame.encode (wrapperType, payload wrapper pkt) := by
    simp [bytesWritten]
  have hflush := happ.flush happ.carries fun n hn => by
    rw [hbytes, List.length_append, hlen, (h.carries.wbuf side).length_eq, ← Nat.add_assoc]
    exact hres n hn
  rw [hbytes] at hflush
  refine ⟨_, ?_, hflush, rfl⟩
  rw [Mailbox.step, hwrite]
  rfl

/-- A message that fails to pack. -/
lemma write_refused (hnone : wrapper.pack wrapper.calSize = none ∨ pkt.pack pkt.calSize = none) :
    ∃ m', m.step (.write os side wrapperType wrapper pkt res) = .ok m' ∧ m'.Replays ns B ∧
      m'.written = m.written := by
  obtain ⟨ht, -, -, hroom, -⟩ := hf
  obtain ⟨pipe, hwrite, hpipe⟩ := h.carries.write_refused ht wrapperType hroom res hnone
  refine ⟨{ m with pipe }.take side [], ?_, ⟨hpipe, h.le, fun s => ?_⟩, rfl⟩
  · rw [Mailbox.step, hwrite]
    rfl
  · show _ = replay (m.bytesWritten s) (ns s)
    by_cases hs : s = side
    · subst hs
      simpa [Mailbox.take] using h.stream s
    · simpa [Mailbox.take, hs] using h.stream s

end Write

/-- **Every event** returns, and adds what it writes and what the socket takes. -/
lemma step {e : MailEvent} (hf : m.Fair e) :
    ∃ m' B', m.step e = .ok m' ∧ m'.Replays (fun s => ns s ++ e.took s) B' ∧
      ∀ s, m'.written s = m.written s ++ e.frames s := by
  cases e with
  | evRead os side n =>
      obtain ⟨m', B', hstep, hrep, hwritten⟩ := h.read hf.1 side fun k hk => (hf.2 k hk).2
      refine ⟨m', B', hstep, ?_, fun s => ?_⟩
      · simpa [MailEvent.took] using hrep
      · simp [MailEvent.frames, hwritten]
  | evWrite side res =>
      obtain ⟨hpipe, htaken⟩ := h.carries.tryWrite side res
      have hflush := h.flush hpipe fun n hn => by
        rw [(h.carries.wbuf side).length_eq]
        exact hf n hn
      refine ⟨_, B, ?_, hflush, fun s => ?_⟩
      · rw [Mailbox.step, TpipeT.onEvWrite, TpipeT.sideOf_fd h.carries.fds side]
        dsimp only
        rw [htaken]
        rfl
      · simp [MailEvent.frames, Mailbox.take]
  | write os side wrapperType wrapper pkt res =>
      cases hws : wrapper.pack wrapper.calSize with
      | none =>
          obtain ⟨m', hstep, hrep, hwritten⟩ := h.write_refused hf (Or.inl hws)
          refine ⟨m', B, hstep, ?_, fun s => ?_⟩
          · simpa [MailEvent.took, MailEvent.Writes, hws] using hrep
          · simp [MailEvent.frames, MailEvent.Writes, hws, hwritten]
      | some ws =>
          cases hps : pkt.pack pkt.calSize with
          | none =>
              obtain ⟨m', hstep, hrep, hwritten⟩ := h.write_refused hf (Or.inr hps)
              refine ⟨m', B, hstep, ?_, fun s => ?_⟩
              · simpa [MailEvent.took, MailEvent.Writes, hps] using hrep
              · simp [MailEvent.frames, MailEvent.Writes, hps, hwritten]
          | some ps =>
              obtain ⟨m', hstep, hrep, hwritten⟩ :=
                h.write hf ⟨ws, hws, hf.2.1 ws hws⟩ ⟨ps, hps, hf.2.2.1 ps hps⟩
              refine ⟨m', B, hstep, ?_, fun s => ?_⟩
              · simpa [MailEvent.took, MailEvent.Writes, hws, hps] using hrep
              · by_cases hs : side = s
                · subst hs
                  simp [MailEvent.frames, MailEvent.Writes, hws, hps, hwritten]
                · simp [MailEvent.frames, MailEvent.Writes, hs, Ne.symm hs, hwritten]

end Replays

variable {os : Libc} {sv : Fin 2 → ℤ} {t : TpipeT} {evs : List MailEvent} {m : Mailbox}

/-- **Every run** replays what was written. -/
lemma Trace.replays (hsv : sv 0 ≠ sv 1) (hnew : TpipeT.new os sv = .ok t)
    (h : Trace (init t) evs m) :
    ∃ B, m.Replays (attempts evs) B ∧ ∀ s, m.written s = evs.flatMap (MailEvent.frames s) := by
  induction h with
  | refl =>
      exact ⟨_, ⟨TpipeT.carries_init hsv hnew, fun s n hn => absurd hn (List.not_mem_nil),
        fun s => rfl⟩, fun s => rfl⟩
  | snoc _ hf hs ih =>
      obtain ⟨B, hrep, hwritten⟩ := ih
      obtain ⟨m', B', hstep, hrep', hframes⟩ := hrep.step hf
      obtain rfl := Except.ok.inj (hstep.symm.trans hs)
      refine ⟨B', ?_, fun s => ?_⟩
      · rw [attempts_concat]
        exact hrep'
      · rw [hframes s, hwritten s]
        simp

/-- **What a pipe carries.**  In every run of writes, flushes and reads on both sides, whatever the
socket takes and gives: the write buffer of a side holds all that was ever written there, and what
the other side has received and what is still in flight are, one after the other, the prefixes of it
that the socket took.  The other side has called back for the frames in what it has received. -/
theorem stream_replayed (hsv : sv 0 ≠ sv 1) (hnew : TpipeT.new os sv = .ok t)
    (h : Trace (init t) evs m) (s : Fin 2) :
    m.written s = evs.flatMap (MailEvent.frames s) ∧
      (m.pipe.pinfo s).wbuf.bytes = m.bytesWritten s ∧
      ∃ B, B ++ m.inFlight s = replay (m.bytesWritten s) (attempts evs s) ∧
        (m.pipe.pinfo (peer s)).callbacks = (readFrames B).1 ∧
        (m.pipe.pinfo (peer s)).rbuf.bytes = (readFrames B).2 := by
  obtain ⟨B, hrep, hwritten⟩ := h.replays hsv hnew
  have hreading := hrep.carries.reading s
  exact ⟨hwritten s, (hrep.carries.wbuf s).bytes_eq, B s, hrep.stream s, hreading.callbacks,
    hreading.rbuf.bytes_eq⟩

lemma fair_plainWrite {m : Mailbox} {side : Fin 2} (ty : ℕ) (b : UInt8) {n : ℕ}
    (hroom : (m.pipe.pinfo side).wbuf.end_ + 1 + msgHeaderLen < 2 ^ 32 - 128)
    (hn : n ≤ (m.pipe.pinfo side).wbuf.len + 1 + msgHeaderLen) :
    m.Fair (plainWrite side ty b (.accept n)) :=
  ⟨zeroLibc_total, (plainMsg_sized _).trueSize, (plainMsg_sized _).trueSize, hroom, by
    intro k hk
    obtain rfl := WriteResult.accept.inj hk
    exact hn⟩

lemma fair_read {m : Mailbox} {k : ℕ}
    (hk : k ≤ (m.inFlight (peer 1)).length ∧ k ≤ maxProtoLen) :
    m.Fair (.evRead zeroLibc 1 (some k)) :=
  ⟨zeroLibc_total, fun _ hn => Option.some.inj hn ▸ hk⟩

/-- Two frames are written; the socket takes three bytes the first time, all there is the second
time, and the other side reads everything: it has received three stray bytes. -/
theorem stream_replayed_torn : ∃ evs m, Trace (init somePipe) evs m ∧
    m.written 0 = [(1, [7]), (2, [8])] ∧ attempts evs 0 = [3, 10] ∧
    ∃ B, B ++ m.inFlight 0 = [1, 0, 1, 1, 0, 1, 0, 7, 2, 0, 1, 0, 8] ∧
      (m.pipe.pinfo 1).callbacks = (readFrames B).1 := by
  have h₁ : Trace (init somePipe) [_] _ :=
    .snoc .refl (fair_plainWrite 1 7 (by decide) (by decide))
      (show (init somePipe).step (plainWrite 0 1 7 (.accept 3)) = .ok _ from rfl)
  have h₂ : Trace (init somePipe) [_, _] _ :=
    .snoc h₁ (fair_plainWrite 2 8 (by decide) (by decide))
      (show Mailbox.step _ (plainWrite 0 2 8 (.accept 10)) = .ok _ from rfl)
  have h₃ : Trace (init somePipe) [_, _, _] _ :=
    .snoc h₂ (fair_read (by decide))
      (show Mailbox.step _ (.evRead zeroLibc 1 (some 13)) = .ok _ from rfl)
  obtain ⟨-, -, B, hB, hcb, -⟩ := stream_replayed (by decide) new_somePipe h₃ 0
  exact ⟨_, _, h₃, by decide, by decide, B, hB.trans (by decide), hcb⟩

end Mailbox

end Axon
