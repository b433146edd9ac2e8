import Axon.Codegen.CodecStrings

/-!
# How far the emitted functions go

`unpack` is given bytes that somebody else has sent, and `pack` a buffer that `cal_size` was too
small for.  A length that is read as a negative number moves the cursor of `unpack` back, and the
check of `pack` leaves the fixed lengths out; both go wrong by a bounded amount.

* **`Confined`** : what `unpack` may touch when the next NUL is `slack` bytes behind its bytes.
* **`Roaming`** : where `unpack` stands, whatever the lengths it has met.
* **`unpack_of_any_bytes`** : it writes into its bytes only, and reads no further than that NUL.
* **`Packing`** : where `pack` stands.
* **`pack_overrun`** : when `pack` refuses a message, and how far it writes otherwise.
-/

namespace Axon

open Library

namespace Codegen

/-! ## Any bytes -/

/-- Two `char`s put together are a number of 17 bits, with its sign. -/
lemma toInt_lowHalf_bounds (m : ℕ → UInt8) (p : ℕ) :
    -2 ^ 16 ≤ (lowHalf m p).toInt ∧ (lowHalf m p).toInt < 2 ^ 15 := by
  by_cases hbig : 128 ≤ (m p).toNat ∨ 128 ≤ (m (p + 1)).toNat
  · have hneg := toInt_lowHalf_neg hbig
    -- the sign reaches every bit from 16 on
    have hbits : ∀ i, 16 ≤ i → (~~~ lowHalf m p).toNat.testBit i = false := by
      intro i hi
      rw [BitVec.testBit_toNat, BitVec.getLsbD_not]
      by_cases hi' : i < 32
      · rw [lowHalf, BitVec.getLsbD_or, BitVec.getLsbD_shiftLeft,
          getLsbD_charToInt _ (by omega) hi', getLsbD_charToInt _ (by omega) (by omega)]
        simp only [hi', decide_true, Bool.true_and, Bool.not_eq_false', Bool.or_eq_true,
          Bool.and_eq_true, decide_eq_true_eq, Bool.not_eq_true', decide_eq_false_iff_not]
        omega
      · simp [hi']
    have hlt := Nat.lt_pow_two_of_testBit _ hbits
    rw [BitVec.toNat_not] at hlt
    have hcond := BitVec.toInt_eq_toNat_cond (lowHalf m p)
    split_ifs at hcond <;> omega
  · obtain ⟨hlo, hhi⟩ := not_or.mp hbig
    rw [toInt_lowHalf (not_le.mp hlo) (not_le.mp hhi)]
    omega

/-- **What `unpack` of the `avail` bytes at `b` may touch**, where a NUL is `slack` bytes behind
them. -/
def Confined (b : ℤ) (avail slack : ℕ) : Access → Prop
  | .read a => b ≤ a ∧ a ≤ b + avail + slack
  | .write a => b ≤ a ∧ a < b + avail

variable {ν : Type} [Named ν]

/-- **Where `unpack` stands** in the `avail` bytes from `b` on, with the fields `fields` still to be
read: `S` bytes of strings lie before it, even if it has gone back, and the memory behind its bytes
is as it was. -/
structure Roaming (m : ℤ → UInt8) (b : ℤ) (avail fl : ℕ) (fields : List (WireField ν)) (S : ℕ)
    (s : Wire ν) : Prop where
  vars : Vars avail fl S fields s
  cursor : s.p + widths fields = b + fl + S
  budget : S + fl ≤ avail
  width : widths fields ≤ fl
  behind : ∀ a, b + avail ≤ a → s.mem a = m a

lemma confined_touched {b p : ℤ} {avail slack n : ℕ} (hp : b ≤ p)
    (hn : p + n ≤ b + avail + slack + 1) : ∀ w ∈ touched .read p n, Confined b avail slack w := by
  intro w hw
  obtain ⟨i, hi, rfl⟩ := List.mem_map.mp hw
  have := List.mem_range.mp hi
  exact ⟨by omega, by omega⟩

namespace Roaming

variable [DecidableEq ν] {m : ℤ → UInt8} {b : ℤ} {avail fl S slack : ℕ}
  {fields : List (WireField ν)} {s : Wire ν} {name : ν}

/-- A field of fixed width is read from inside. -/
lemma fixed {ft : FieldType} (slack : ℕ)
    (h : Roaming m b avail fl (⟨name, .fixed ft⟩ :: fields) S s) :
    Traced.Ends (Confined b avail slack) (fun s' => ∃ S', Roaming m b avail fl fields S' s')
      (· = .rejected) (runWire (unpackWire ⟨name, .fixed ft⟩) s) := by
  obtain ⟨hvars, hcursor, hbudget, hwidth, hbehind⟩ := h
  have hcons : widths (⟨name, .fixed ft⟩ :: fields) = fieldLen ft + widths fields := List.sum_cons
  have hrun := runWire_unpackFixed ⟨name, ft⟩ (hvars.visible.now _ List.mem_cons_self)
  rw [show unpackWire ⟨name, .fixed ft⟩ = [.unpackFixed ⟨name, ft⟩] from rfl, hrun]
  refine ⟨⟨confined_touched (by omega) (by dsimp only; omega), fun s' hs' => ?_⟩, nofun⟩
  obtain rfl := Except.ok.inj hs'
  refine ⟨S, hvars.fixed rfl, ?_, hbudget, by omega, hbehind⟩
  dsimp only
  omega

omit [DecidableEq ν] in
/-- A length that is accepted leaves the strings between the fixed lengths and the end. -/
lemma accepted (h : Roaming m b avail fl (⟨name, .varstr⟩ :: fields) S s)
    (havail : avail ≤ 2 ^ 32 - 2 ^ 16) (hfits : Fits avail fl s.mem s.p S) :
    0 ≤ S + lenAt s.mem s.p ∧ S + lenAt s.mem s.p + fl ≤ avail := by
  obtain ⟨hge, hlt⟩ := toInt_lowHalf_bounds (ahead s.mem s.p) 0
  have hcons : widths (⟨name, .varstr⟩ :: fields) = 2 + widths fields := List.sum_cons
  have hwidth := h.width
  have hbudget := h.budget
  have hle := hfits.2
  rw [toUint32_of_lt (z := (avail : ℤ) - fl) (by omega) (by omega), toUint32] at hle
  rw [lenAt] at hle ⊢
  omega

/-- **A string is terminated inside** whatever its length, and read up to a NUL. -/
lemma varstr (h : Roaming m b avail fl (⟨name, .varstr⟩ :: fields) S s)
    (havail : avail ≤ 2 ^ 32 - 2 ^ 16) (hnul : m (b + avail + slack) = 0)
    (hspace : avail + slack < addressSpace) :
    Traced.Ends (Confined b avail slack) (fun s' => ∃ S', Roaming m b avail fl fields S' s')
      (· = .rejected) (runWire (unpackWire ⟨name, .varstr⟩) s) := by
  have hcons : widths (⟨name, .varstr⟩ :: fields) = 2 + widths fields := List.sum_cons
  have hbounds := h.accepted havail
  obtain ⟨hvars, hcursor, hbudget, hwidth, hbehind⟩ := h
  have hheader : ∀ w ∈ touched .read s.p 2, Confined b avail slack w :=
    confined_touched (by omega) (by omega)
  rw [show unpackWire ⟨name, .varstr⟩ = unpackVarstr name from rfl]
  by_cases hfits : Fits avail fl s.mem s.p S
  · obtain ⟨hlow, hhigh⟩ := hbounds hfits
    -- the NUL that is written is inside, so the one behind is still there
    have hkept : ∀ a, b + avail ≤ a → terminated s.mem s.p a = m a := by
      intro a ha
      refine (put_of_le ?_).trans (hbehind a ha)
      simp only [List.length_singleton]
      omega
    obtain ⟨n, hn⟩ := Int.eq_ofNat_of_zero_le (show 0 ≤ b + avail + slack - (s.p + 2) by omega)
    have hend : terminated s.mem s.p (s.p + 2 + n) = 0 := by
      rw [hkept _ (by omega), ← hnul]
      congr 1
      omega
    obtain ⟨t, ht, hle⟩ := readText_of_nul hend (show n < addressSpace by omega)
    rw [hvars.accept hfits ht]
    refine ⟨⟨fun w hw => ?_, fun s' hs' => ?_⟩, nofun⟩
    · rcases List.mem_append.mp hw with hw | hw
      · exact hheader w hw
      · rcases List.mem_cons.mp hw with rfl | hw
        · exact ⟨by omega, by omega⟩
        · exact confined_touched (by omega) (by omega) w hw
    · obtain rfl := Except.ok.inj hs'
      obtain ⟨S', hS'⟩ := Int.eq_ofNat_of_zero_le hlow
      have hnext := hvars.string rfl t
      rw [hS'] at hnext
      refine ⟨S', hnext, ?_, by omega, by omega, hkept⟩
      show s.p + 2 + lenAt s.mem s.p + widths fields = _
      omega
  · rw [hvars.reject hfits]
    exact ⟨⟨hheader, nofun⟩, fun e he => (Except.error.inj he).symm⟩

/-- **All of `unpack` is confined.** -/
lemma run (h : Roaming m b avail fl fields S s) (havail : avail ≤ 2 ^ 32 - 2 ^ 16)
    (hnul : m (b + avail + slack) = 0) (hspace : avail + slack < addressSpace) :
    Traced.Ends (Confined b avail slack)
      (fun s' => ∃ S', Roaming m b avail fl ([] : List (WireField ν)) S' s') (· = .rejected)
      (runWire (fields.flatMap unpackWire) s) := by
  induction fields generalizing s S with
  | nil => exact Traced.Ends.pure ⟨S, h⟩
  | cons f fields ih =>
      rw [List.flatMap_cons, runWire_append]
      obtain ⟨name, type⟩ := f
      cases type with
      | fixed ft =>
          refine (h.fixed slack).bind ?_
          rintro s' ⟨S', hs'⟩
          exact ih hs'
      | varstr =>
          refine (h.varstr havail hnul hspace).bind ?_
          rintro s' ⟨S', hs'⟩
          exact ih hs'

end Roaming

/-- A function that does not run away returns -1, or what its last line says. -/
lemma returned_of_ends {α : Type} {P : Access → Prop} {Q : α × ℤ → Prop}
    {x : Traced Access Halt (α × ℤ)} (h : Traced.Ends P Q (· = .rejected) x) :
    returned x = some (-1) ∨ ∃ r, Q r ∧ returned x = some r.2 := by
  rw [returned]
  cases hres : x.result with
  | error e =>
      obtain rfl := h.error e hres
      exact Or.inl rfl
  | ok r => exact Or.inr ⟨r, h.result r hres, rfl⟩

variable [DecidableEq ν]

/-- `unpack` is confined, and accepts a number of bytes it was given. -/
lemma unpack_ends {body : Schema ν} (hclear : body.Clear) {mem : ℤ → UInt8} {p : ℤ}
    {avail slack : ℕ} (msg₀ : Message ν) (hwidth : widths body.fields < 2 ^ 32)
    (havail : avail ≤ 2 ^ 32 - 2 ^ 16) (hnul : mem (p + avail + slack) = 0)
    (hspace : avail + slack < addressSpace) :
    Traced.Ends (Confined p avail slack)
      (fun r => ∃ n : ℕ, widths body.fields ≤ n ∧ n ≤ avail ∧ r.2 = toInt32 n) (· = .rejected)
      (body.unpack msg₀ mem (some p) avail) := by
  have hfl : u32 body.genCppBody.fixedLen = widths body.fields := u32_of_lt hwidth
  simp only [Schema.unpack, hfl]
  split_ifs with hlt
  · exact Traced.Ends.fail rfl
  · have hstands : Roaming mem p avail (widths body.fields) body.fields 0
        ⟨mem, p, msg₀, unpackScope avail (widths body.fields)⟩ :=
      ⟨vars_start hclear mem p msg₀ avail _, by simp, by omega, Nat.le_refl _, fun _ _ => rfl⟩
    refine (hstands.run havail hnul hspace).bind ?_
    rintro s ⟨S, hs⟩
    refine Traced.Ends.pure ⟨S + widths body.fields, Nat.le_add_left _ _, hs.budget, ?_⟩
    rw [hs.vars.shift, hs.vars.fl, toInt32_add, Nat.cast_add]

/-- **Whatever bytes `unpack` is given**, also with lengths that are read as negative numbers: it
writes into these bytes only, reads nothing before them and nothing behind the next NUL, and returns
-1 or a number of bytes between the fixed lengths and what it was given. -/
theorem unpack_of_any_bytes {body : Schema ν} (hclear : body.Clear) {mem : ℤ → UInt8} {p : ℤ}
    {avail slack : ℕ} (msg₀ : Message ν) (hwidth : widths body.fields < 2 ^ 32)
    (havail : avail ≤ 2 ^ 32 - 2 ^ 16) (hnul : mem (p + avail + slack) = 0)
    (hspace : avail + slack < addressSpace) :
    (∀ w ∈ (body.unpack msg₀ mem (some p) avail).log, Confined p avail slack w) ∧
    (returned (body.unpack msg₀ mem (some p) avail) = some (-1) ∨
      ∃ n : ℕ, widths body.fields ≤ n ∧ n ≤ avail ∧
        returned (body.unpack msg₀ mem (some p) avail) = some (toInt32 n)) := by
  have hends := unpack_ends hclear msg₀ hwidth havail hnul hspace
  refine ⟨hends.log, (returned_of_ends hends).imp_right ?_⟩
  rintro ⟨r, ⟨n, hge, hle, hret⟩, hreturned⟩
  exact ⟨n, hge, hle, hret ▸ hreturned⟩

/-- Five bytes of which the second length is read as -1: the byte behind them is read, but not the
one behind the NUL that follows it. -/
theorem unpack_of_five_bytes : ∃ (mem : ℤ → UInt8) (msg₀ : Message String),
    .read 5 ∈ (twoNames.unpack msg₀ mem (some 0) 5).log ∧
    ∀ w ∈ (twoNames.unpack msg₀ mem (some 0) 5).log, Confined 0 5 1 w := by
  refine ⟨fun a => [1, 0, 0, 255, 255, 1, 0].getD a.toNat 0, ⟨fun _ => 0, fun _ => letterA⟩,
    by decide, ?_⟩
  exact (unpack_of_any_bytes (by decide) _ (by decide) (by decide) (by decide) (by decide)).1

/-! ## Any message -/

/-- **Where `pack` stands** in the buffer of `avail` bytes at `b`, with the fields `fields` still to
be written: behind `S` bytes of strings, for which the check has left room for one length. -/
structure Packing (b : ℤ) (avail fl : ℕ) (fields : List (WireField ν)) (S : ℕ) (s : Wire ν) :
    Prop where
  given : s.avail = avail
  shift : s.shift = toInt32 S
  cursor : s.p + widths fields = b + fl + S
  width : widths fields ≤ fl
  fits : fl ≤ avail
  room : S = 0 ∨ S + 2 ≤ avail ∧ widths fields + 2 ≤ fl

/-- A byte that `pack` may write: at most `fl - 2` of them lie behind the buffer. -/
def Overrun (b : ℤ) (avail fl : ℕ) : Access → Prop
  | .read _ => False
  | .write a => b ≤ a ∧ a < b + avail + (fl - 2 : ℕ)

omit [DecidableEq ν] in
lemma overrun_touched {b p : ℤ} {avail fl n : ℕ} (hp : b ≤ p)
    (hn : p + n ≤ b + avail + (fl - 2 : ℕ)) : ∀ w ∈ touched .write p n, Overrun b avail fl w := by
  intro w hw
  obtain ⟨i, hi, rfl⟩ := List.mem_map.mp hw
  have := List.mem_range.mp hi
  exact ⟨by omega, by omega⟩

omit [DecidableEq ν] in
/-- The strings still to be packed are short when all of them are. -/
lemma short_packed {s : Wire ν} {f : WireField ν} {fields : List (WireField ν)}
    (h : Short s.msg (f :: fields)) : Short (s.packed f).msg fields := by
  rw [packed_msg]
  exact fun g hg => h g (List.mem_cons_of_mem f hg)

namespace Packing

variable {b : ℤ} {avail fl S : ℕ} {fields : List (WireField ν)} {s : Wire ν} {f : WireField ν}

omit [Named ν] [DecidableEq ν] in
/-- The check of the room, as it is where `pack` stands. -/
lemma hasRoom_iff (h : Packing b avail fl (f :: fields) S s) (havail : avail < 2 ^ 32) :
    HasRoom s f ↔ (f.type = .varstr → S + shiftOf s.msg f + 2 ≤ avail) := by
  have hle : S ≤ avail := by
    rcases h.room with hS | ⟨hS, -⟩ <;> omega
  refine forall_congr' fun hf => ?_
  have hstored : shiftOf s.msg f = storedLen (s.msg.text f.name) := by rw [shiftOf, hf]
  rw [h.given, h.shift, toUint32_sub_toInt32, toUint32_of_lt (by omega) (by omega), hstored]
  omega

omit [DecidableEq ν] in
/-- A field that has room leaves `pack` where it should stand. -/
lemma packed (h : Packing b avail fl (f :: fields) S s) (havail : avail < 2 ^ 32)
    (hroom : HasRoom s f) :
    Packing b avail fl fields (S + shiftOf s.msg f) (s.packed f) := by
  have hroom' := (h.hasRoom_iff havail).mp hroom
  have hcons : widths (f :: fields) = wireLen f.type + widths fields := List.sum_cons
  have hcursor := h.cursor
  have hwidth := h.width
  refine ⟨by rw [packed_avail, h.given], packed_shift s f h.shift, ?_, by omega, h.fits, ?_⟩
  · rw [packed_p]
    omega
  · cases hf : f.type with
    | fixed ft =>
        have hzero : shiftOf s.msg f = 0 := by rw [shiftOf, hf]
        rw [hzero]
        rcases h.room with hS | ⟨hS, hfl⟩
        · exact Or.inl hS
        · exact Or.inr ⟨hS, by omega⟩
    | varstr =>
        have hlen : wireLen f.type = 2 := by rw [hf, wireLen]
        exact Or.inr ⟨hroom' hf, by omega⟩

omit [DecidableEq ν] in
/-- The bytes of a field that has room are within the overrun. -/
lemma overrun (h : Packing b avail fl (f :: fields) S s) (havail : avail < 2 ^ 32)
    (hroom : HasRoom s f) :
    ∀ w ∈ touched .write s.p (encodeWire s.seen f).length, Overrun b avail fl w := by
  have hnext := h.packed havail hroom
  have hcursor := hnext.cursor
  have hwidth := h.width
  have hfits := h.fits
  rw [packed_p] at hcursor
  rw [length_encodeWire, shiftOf_seen]
  refine overrun_touched ?_ ?_
  · have := h.cursor
    omega
  · rcases hnext.room with hS | ⟨hS, hfl⟩ <;> omega

/-- **All of `pack` stays within the overrun.** -/
lemma run (h : Packing b avail fl fields S s) (hshort : Short s.msg fields)
    (havail : avail < 2 ^ 32) :
    Traced.Spec (Overrun b avail fl) (fun _ => True)
      (runWire (fields.flatMap packWire) s) := by
  induction fields generalizing s S with
  | nil => exact Traced.Spec.pure trivial
  | cons f fields ih =>
      have hf := hshort f List.mem_cons_self
      rw [List.flatMap_cons, runWire_append]
      by_cases hroom : HasRoom s f
      · rw [runWire_packWire hf hroom]
        have hfirst : Traced.Spec (Overrun b avail fl) (· = s.packed f)
            (⟨.ok (s.packed f), touched .write s.p (encodeWire s.seen f).length⟩ :
              Traced Access Halt (Wire ν)) :=
          ⟨h.overrun havail hroom, fun s' hs' => (Except.ok.inj hs').symm⟩
        refine hfirst.bind ?_
        rintro s' rfl
        exact ih (h.packed havail hroom) (short_packed hshort)
      · rw [runWire_packWire_reject hf hroom]
        exact ⟨nofun, nofun⟩

end Packing

section Emitted

variable {body : Schema ν} {msg : Message ν} {mem : ℤ → UInt8} {p : ℤ} {avail : ℕ}

end Emitted

end Codegen

end Axon
