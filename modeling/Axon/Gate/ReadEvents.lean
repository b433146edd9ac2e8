import Axon.Core.BufferRefinement
import Axon.Core.TpipeReading
import Axon.Gate.WorkerConnects

/-!
# One read event

`Connect::read` reports through its return value and `errno`; `on_read` decides from these what to
do with the connection.

* **`Calm`** : between two events the read buffer is empty.
* **`read_active`** : what `Connect::read` returns for each outcome of `::read`.
* **`onRead_spares`** : after data, `EAGAIN` or the end of the stream the connection stays.
* **`onRead_fail`** : after a hard error it is announced to the main thread and closed.
* **`target`** : the connection an event of `do_poll` is for.
-/

namespace Axon

open Library

/-- The bytes read. -/
def ReadResult.bytes : ReadResult → List UInt8
  | .data bytes => bytes
  | _ => []

/-- What `::read` returns. -/
def ReadResult.ret : ReadResult → ℤ
  | .data bytes => bytes.length
  | _ => -1

/-- Whether `errno` is `EINTR` or `EAGAIN` afterwards; a call that succeeds leaves it alone. -/
def ReadResult.errno : ReadResult → Bool → Bool
  | .data _, errno => errno
  | .again, _ => true
  | .fail, _ => false

namespace Gate

open Codegen ConnectWorker

/-- The read buffer of a connection, if it has been made, is empty and of capacity at most `A`. -/
def Calm (A : ℕ) (c : Connect) : Prop := ∀ b, c.rbuf = some b → b.Refines [] ∧ b.Bounded A

/-- The capacity a read buffer can get to. -/
def ConnectWorker.rbufBound (w : ConnectWorker) : ℕ := w.rbufSize + 2176

section Buffers

variable {os : Libc} {A : ℕ} {c : Connect} {b b' : BufferT}

/-- A buffer made ready is empty, whatever it held. -/
lemma readyBuffer_refines {buf : Option BufferT} {size : ℕ}
    (hbuf : ∀ b, buf = some b → ∃ q, b.Refines q) (hsize : size < 2 ^ 32)
    (h : Connect.readyBuffer os buf size = .ok b') : b'.Refines [] := by
  cases buf with
  | none => exact BufferT.new_refines hsize h
  | some b =>
      obtain ⟨q, hr⟩ := hbuf b rfl
      exact BufferT.reset_refines hr hsize h

/-- It stays within its bounds. -/
lemma readyBuffer_calm {buf : Option BufferT} {size : ℕ}
    (hbuf : ∀ b, buf = some b → b.Refines [] ∧ b.Bounded A) (h0 : 0 < size) (hA : size ≤ A)
    (hlt : A < 2 ^ 32) (h : Connect.readyBuffer os buf size = .ok b') :
    b'.Refines [] ∧ b'.Bounded A := by
  refine ⟨readyBuffer_refines (fun b hb => ⟨[], (hbuf b hb).1⟩) (by omega) h, ?_⟩
  cases buf with
  | none => exact TpipeT.bounded_new hA h
  | some b =>
      obtain ⟨-, hb⟩ := hbuf b rfl
      rw [Connect.readyBuffer, BufferT.reset] at h
      obtain ⟨b₁, h₁, h⟩ := bind_eq_ok h
      obtain rfl := Except.ok.inj h
      split_ifs at h₁
      · obtain ⟨u, -, h₁⟩ := bind_eq_ok h₁
        obtain rfl := Except.ok.inj h₁
        exact ⟨hA, hb.init_le⟩
      · omega
      · obtain rfl := Except.ok.inj h₁
        exact ⟨hb.alloc_le, hb.init_le⟩

/-- **What `Connect::read` does** for an active connection: the bytes read are in its buffer. -/
lemma read_active (hos : os.Total) (hstatus : c.status = connActive) (hb : c.rbuf = some b)
    (hr : b.Refines []) (hbd : b.Bounded A) (hA : 2176 ≤ A) (hlt : A + 2048 < 2 ^ 32 - 128)
    {res : ReadResult} (hlen : res.bytes.length ≤ 2048) (errno : Bool) :
    ∃ b', b'.Refines res.bytes ∧ b'.Bounded A ∧
      c.read os res errno = .ok ({ c with rbuf := some b' }, res.ret, res.errno errno) := by
  have hroom : b.len + 2048 + 128 ≤ A := by
    rw [← hr.length_eq, List.length_nil]
    omega
  obtain ⟨b₁, r, hprep, hr₁, hbd₁, hroom₁⟩ := BufferT.prepare_total hos hr hbd hroom hlt
  rw [Connect.read, hb]
  dsimp only
  rw [if_neg (not_not.mpr hstatus), hprep, ok_bind]
  cases res with
  | again => exact ⟨b₁, hr₁, hbd₁, rfl⟩
  | fail => exact ⟨b₁, hr₁, hbd₁, rfl⟩
  | data bytes =>
      cases bytes with
      | nil => exact ⟨b₁, hr₁, hbd₁, rfl⟩
      | cons x bytes =>
          rw [ReadResult.bytes] at hlen
          obtain ⟨b₂, hpush, hr₂, hbd₂⟩ := BufferT.flushPush_total hr₁ hbd₁
            (w := x :: bytes) (by omega)
          refine ⟨b₂, hr₂, hbd₂, ?_⟩
          dsimp only
          rw [hpush]
          rfl

end Buffers

/-- The worker after the read buffer of slot `i` has been replaced. -/
def ConnectWorker.withRbuf (w : ConnectWorker) (i : ℕ) (b : BufferT) : ConnectWorker :=
  w.setConn i { w.container.connects i with rbuf := some b }

lemma ConnectWorker.withRbuf_withRbuf (w : ConnectWorker) (i : ℕ) (b b' : BufferT) :
    (w.withRbuf i b).withRbuf i b' = w.withRbuf i b' := by
  simp [withRbuf, setConn]

/-- The calls of `::write` after the bytes `q` have been echoed to the connection in slot `i`. -/
def ConnectWorker.echo (w : ConnectWorker) (i : ℕ) (q : List UInt8) : List (ℤ × List UInt8) :=
  if q = [] then w.echoed else w.echoed ++ [((w.container.connects i).fd, q)]

/-- `process_data` empties the read buffer. -/
lemma processData_eq {w : ConnectWorker} {os : Libc} {i A : ℕ} {b : BufferT} {q : List UInt8}
    (hos : os.Total) (hb : (w.container.connects i).rbuf = some b) (hr : b.Refines q)
    (hbd : b.Bounded A) :
    ∃ b', b'.Refines [] ∧ b'.Bounded A ∧
      w.processData os i = .ok { w.withRbuf i b' with echoed := w.echo i q } := by
  obtain ⟨b', r, hpop, hr', hbd'⟩ := BufferT.pop_total hos b.len hr hbd
  rw [← hr.length_eq, List.drop_length] at hr'
  refine ⟨b', hr', hbd', ?_⟩
  rw [processData, hb, echo]
  dsimp only
  rw [hpop, ← hr.length_eq, hr.bytes_eq]
  cases q with
  | nil => rfl
  | cons x q =>
      rw [if_pos (by simp), if_neg (by simp)]
      rfl

section Events

variable {w : ConnectWorker} {os : Libc} {i A : ℕ} {b : BufferT} (hos : os.Total)
  (hstatus : (w.container.connects i).status = connActive)
  (hb : (w.container.connects i).rbuf = some b) (hr : b.Refines []) (hbd : b.Bounded A)
  (hA : 2176 ≤ A) (hlt : A + 2048 < 2 ^ 32 - 128) (errno : Bool) (wres : WriteResult)

include hos hstatus hb hr hbd hA hlt

/-- **A connection that does not fail stays**: only its read buffer is another one, and what was
read has been written back. -/
lemma onRead_spares {res : ReadResult} (hlen : res.bytes.length ≤ 2048) (hres : res ≠ .fail) :
    ∃ b', b'.Refines [] ∧ b'.Bounded A ∧
      w.onRead os i res errno wres =
        .ok { w.withRbuf i b' with echoed := w.echo i res.bytes } := by
  obtain ⟨b₁, hr₁, hbd₁, hread⟩ := read_active hos hstatus hb hr hbd hA hlt hlen errno
  rw [onRead, hread, ok_bind]
  dsimp only
  cases res with
  | fail => exact absurd rfl hres
  | again => exact ⟨b₁, hr₁, hbd₁, if_pos ⟨by decide, rfl⟩⟩
  | data bytes =>
      rw [ReadResult.ret, if_neg (by omega)]
      cases bytes with
      | nil => exact ⟨b₁, hr₁, hbd₁, if_pos rfl⟩
      | cons x bytes =>
          have hself : ((w.withRbuf i b₁).container.connects i).rbuf = some b₁ := by
            simp [withRbuf, setConn]
          have hfd : (w.withRbuf i b₁).echo i (x :: bytes) = w.echo i (x :: bytes) := by
            simp [echo, withRbuf, setConn]
          obtain ⟨b₂, hr₂, hbd₂, hproc⟩ := processData_eq hos hself hr₁ hbd₁
          rw [withRbuf_withRbuf, ReadResult.bytes, hfd] at hproc
          refine ⟨b₂, hr₂, hbd₂, ?_⟩
          rw [if_neg (by simp; omega), if_neg (by omega)]
          exact hproc

/-- **A connection that fails** is announced to the main thread and closed. -/
lemma onRead_fail :
    ∃ b', b'.Refines [] ∧ b'.Bounded A ∧ w.onRead os i .fail errno wres = (do
      let c := (w.withRbuf i b').container.connects i
      let w' ← (w.withRbuf i b').waitClose os c wres
      w'.closeConnect c.index c.hid) := by
  obtain ⟨b₁, hr₁, hbd₁, hread⟩ := read_active hos hstatus hb hr hbd hA hlt
    (show ReadResult.fail.bytes.length ≤ 2048 by simp [ReadResult.bytes]) errno
  have hself : (w.withRbuf i b₁).container.connects i =
      { w.container.connects i with rbuf := some b₁ } := by simp [withRbuf, setConn]
  refine ⟨b₁, hr₁, hbd₁, ?_⟩
  rw [onRead, hread, ok_bind, hself]
  rfl

end Events

/-- A connection that is not active is closed as if it had failed, or left alone, according to what
`errno` happens to be. -/
lemma onRead_inactive {w : ConnectWorker} {os : Libc} {i : ℕ} {b : BufferT} {res : ReadResult}
    {errno : Bool} {wres : WriteResult} (hstatus : (w.container.connects i).status ≠ connActive)
    (hb : (w.container.connects i).rbuf = some b) :
    w.onRead os i res errno wres = if errno = true then .ok w else (do
      let w' ← w.waitClose os (w.container.connects i) wres
      w'.closeConnect (w.container.connects i).index (w.container.connects i).hid) := by
  have hread : (w.container.connects i).read os res errno
      = .ok (w.container.connects i, -1, errno) := by
    rw [Connect.read, hb]
    exact if_pos hstatus
  have hset : w.setConn i (w.container.connects i) = w := by
    rw [setConn, Function.update_eq_self]
  rw [onRead, hread, ok_bind]
  dsimp only
  rw [hset]
  cases errno with
  | true => rfl
  | false => rfl

/-! ## The event loop -/

/-- The slot whose connection `do_poll` calls `on_read` for when the descriptor is readable. -/
def ConnectWorker.target (w : ConnectWorker) (fd : ℤ) : Option ℕ :=
  if (w.poller.entry fd).status ≠ .active then none
  else
    match (w.poller.entry fd).reactor with
    | some (i + 1) => if (w.container.connects i).mgr = none then none else some i
    | _ => none

lemma poll_of_target {w : ConnectWorker} {os : Libc} {fd : ℤ} {i : ℕ} {res : ReadResult}
    {errno : Bool} {wres : WriteResult} (h : w.target fd = some i) :
    w.poll os fd res errno wres = w.onRead os i res errno wres := by
  rw [target] at h
  rw [poll]
  split_ifs at h with hactive
  rw [if_neg hactive]
  split at h
  · rename_i j hreactor
    rw [hreactor]
    dsimp only
    split_ifs at h with hmgr
    obtain rfl := Option.some.inj h
    exact if_neg hmgr
  · exact absurd h (by simp)

/-- An event that is for no connection drops events at most. -/
lemma poll_of_no_target {w w' : ConnectWorker} {os : Libc} {fd : ℤ} {res : ReadResult}
    {errno : Bool} {wres : WriteResult} (h : w.target fd = none)
    (hstep : w.poll os fd res errno wres = .ok w') :
    w' = w ∨ w' = { w with poller := w.poller.delEvent fd (evRead ||| evWrite) } := by
  rw [target] at h
  rw [poll] at hstep
  by_cases hactive : (w.poller.entry fd).status = .active
  · rw [if_neg (not_not.mpr hactive)] at h hstep
    cases hreactor : (w.poller.entry fd).reactor with
    | none =>
        rw [hreactor] at hstep
        exact absurd hstep (by simp)
    | some j =>
        rw [hreactor] at h hstep
        cases j with
        | zero => exact Or.inl (Except.ok.inj hstep).symm
        | succ j =>
            dsimp only at h hstep
            split_ifs at h with hmgr
            rw [if_pos hmgr] at hstep
            exact Or.inl (Except.ok.inj hstep).symm
  · rw [if_pos hactive] at hstep
    exact Or.inr (Except.ok.inj hstep).symm

end Gate

end Axon
