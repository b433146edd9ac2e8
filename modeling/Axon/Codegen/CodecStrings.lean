import Axon.Codegen.CodecSizes
import Axon.Codegen.CodecWide

/-!
# What becomes of string fields

`UNPACK_VARSTR` puts the 16-bit length of a string together from two signed `char`s.  A length with
a byte from 128 on is negative; it passes the check of the room when the strings before it have made
`_shift` large enough, and then moves the cursor back.

* **`PlainLen`** : the lengths that are read back as they were stored.
* **`Vars`** : what the variables of `unpack` hold, and **`Vars.accept`**, **`Vars.reject`** : what
  the statements of a string do.
* **`RoundTrips`**, **`roundTrips_of_plain`** : messages whose strings all have such lengths
  survive.
* **`Contained`**, **`GivenUp`** : what the bytes say about the strings that `unpack` accepts, and
  **`unpack_inside_iff`** : when it returns -1 or stays inside the bytes it was given.
* **`strings_survive`** : both, for the emitted functions.
-/

namespace Axon

open Library

namespace Codegen

/-! ## Lengths -/

/-- **The lengths that survive**: both bytes are below 128. -/
def PlainLen (n : ℕ) : Prop := n % 256 < 128 ∧ n < 2 ^ 15

instance (n : ℕ) : Decidable (PlainLen n) := inferInstanceAs (Decidable (_ ∧ _))

/-- A length whose bytes are below 128. -/
lemma toInt_lowHalf {m : ℕ → UInt8} {p : ℕ} (hlo : (m p).toNat < 128)
    (hhi : (m (p + 1)).toNat < 128) :
    (lowHalf m p).toInt = ((m p).toNat + 256 * (m (p + 1)).toNat : ℕ) := by
  have hnat : (lowHalf m p).toNat = (m p).toNat + 256 * (m (p + 1)).toNat :=
    toNat_lowChars hlo hhi
  rw [BitVec.toInt_eq_toNat_of_lt (by omega), hnat]

/-- Any other length is negative. -/
lemma toInt_lowHalf_neg {m : ℕ → UInt8} {p : ℕ}
    (hbig : 128 ≤ (m p).toNat ∨ 128 ≤ (m (p + 1)).toNat) : (lowHalf m p).toInt < 0 := by
  refine BitVec.toInt_neg_iff.mpr (BitVec.msb_eq_true_iff_two_mul_ge.mp ?_)
  rw [lowHalf, BitVec.msb_or, BitVec.msb_eq_getLsbD_last, BitVec.msb_eq_getLsbD_last,
    BitVec.getLsbD_shiftLeft, getLsbD_charToInt (m p) (by decide) (by decide),
    getLsbD_charToInt (m (p + 1)) (by decide) (by decide)]
  simpa using hbig

/-! ## C strings -/

/-- A string ends at the first NUL. -/
lemma readText_of_nul {m : ℤ → UInt8} {p : ℤ} {n fuel : ℕ} (hnul : m (p + n) = 0)
    (hfuel : n < fuel) : ∃ t, readText m fuel p = some t ∧ t.1.length ≤ n := by
  induction n generalizing p fuel with
  | zero =>
      obtain ⟨fuel, rfl⟩ := Nat.exists_eq_succ_of_ne_zero (Nat.ne_of_gt hfuel)
      have hnul' : m p = 0 := by simpa using hnul
      exact ⟨_, dif_pos hnul', Nat.le_refl 0⟩
  | succ n ih =>
      obtain ⟨fuel, rfl⟩ := Nat.exists_eq_succ_of_ne_zero (Nat.ne_of_gt (Nat.zero_lt_of_lt hfuel))
      by_cases hp : m p = 0
      · exact ⟨_, dif_pos hp, Nat.zero_le _⟩
      · have hnul' : m (p + 1 + n) = 0 := by
          rw [← hnul]
          congr 1
          omega
        obtain ⟨t, ht, hle⟩ := ih hnul' (Nat.lt_of_succ_lt_succ hfuel)
        refine ⟨⟨m p :: t.1, List.not_mem_cons_of_ne_of_not_mem (Ne.symm hp) t.2⟩, ?_,
          Nat.succ_le_succ hle⟩
        rw [readText, dif_neg hp, ht]
        rfl

/-- A string that is there with its NUL is read. -/
lemma readText_of_shows {m : ℤ → UInt8} {p : ℤ} {t : CString} {fuel : ℕ}
    (h : Shows m p (t.1 ++ [0])) (hfuel : t.1.length < fuel) : readText m fuel p = some t := by
  obtain ⟨l, hl⟩ := t
  induction l generalizing p fuel with
  | nil =>
      obtain ⟨fuel, rfl⟩ := Nat.exists_eq_succ_of_ne_zero (Nat.ne_of_gt hfuel)
      have hnul := h.get (i := 0) (by simp)
      exact dif_pos (by simpa using hnul)
  | cons b l ih =>
      obtain ⟨fuel, rfl⟩ := Nat.exists_eq_succ_of_ne_zero (Nat.ne_of_gt (Nat.zero_lt_of_lt hfuel))
      rw [List.mem_cons, not_or] at hl
      have hb : m p = b := by simpa using h.get (i := 0) (by simp)
      have hrest : Shows m (p + 1) (l ++ [0]) :=
        (shows_append.mp (show Shows m p ([b] ++ (l ++ [0])) from h)).2
      rw [readText, dif_neg (by rw [hb]; exact Ne.symm hl.1),
        ih hl.2 hrest (Nat.lt_of_succ_lt_succ hfuel)]
      simp [hb]

/-- What was read ends at a NUL. -/
lemma nul_of_readText {m : ℤ → UInt8} {p : ℤ} {fuel : ℕ} {t : CString}
    (h : readText m fuel p = some t) : t.1.length < fuel ∧ m (p + t.1.length) = 0 := by
  induction fuel generalizing p t with
  | zero => cases h
  | succ fuel ih =>
      rw [readText] at h
      split_ifs at h with hp
      · obtain rfl := Option.some.inj h
        exact ⟨Nat.succ_pos fuel, (congrArg m (add_zero p)).trans hp⟩
      · obtain ⟨u, hu, rfl⟩ := Option.map_eq_some_iff.mp h
        obtain ⟨hlt, hnul⟩ := ih hu
        refine ⟨Nat.succ_lt_succ hlt, Eq.trans (congrArg m ?_) hnul⟩
        simp only [List.length_cons]
        omega

/-! ## One string -/

/-- The length at `p`, as `UNPACK_VARSTR` reads it. -/
def lenAt (m : ℤ → UInt8) (p : ℤ) : ℤ := (lowHalf (ahead m p) 0).toInt

/-- The memory after the string at `p` has been terminated. -/
def terminated (m : ℤ → UInt8) (p : ℤ) : ℤ → UInt8 := put m (p + 2 + lenAt m p - 1) [0]

/-- **The check of the length at `p` passes**, behind strings that have taken `S` bytes. -/
def Fits (avail fl : ℕ) (m : ℤ → UInt8) (p S : ℤ) : Prop :=
  lenAt m p ≠ 0 ∧ toUint32 (S + lenAt m p) ≤ toUint32 (avail - fl)

/-- An `int` holds what is read. -/
lemma toInt32_toInt (x : BitVec 32) : toInt32 x.toInt = x.toInt :=
  toInt32_of_lt (BitVec.le_toInt x) BitVec.toInt_lt

variable {ν : Type} [Named ν] [DecidableEq ν]

/-- The machine after a string has been unpacked, with the text `t`. -/
def Wire.unpacked (s : Wire ν) (f : ν) (t : CString) : Wire ν where
  mem := terminated s.mem s.p
  p := s.p + 2 + lenAt s.mem s.p
  msg := { s.msg with text := Function.update s.msg.text f t }
  scope := (s.scope.set (slenVar f) (lenAt s.mem s.p)).set "_shift"
    (s.shift + lenAt s.mem s.p)

/-- **What the variables of `unpack` hold**, with the fields `fields` still to be read and behind
strings that have taken `S` bytes. -/
structure Vars (avail fl : ℕ) (S : ℤ) (fields : List (WireField ν)) (s : Wire ν) : Prop where
  avail : s.avail = avail
  fl : s.fl = fl
  shift : s.shift = toInt32 S
  visible : Visible s.scope fields

namespace Vars

variable {avail fl : ℕ} {S : ℤ} {f : WireField ν} {fields : List (WireField ν)} {s : Wire ν}

omit [DecidableEq ν] in
/-- A field of fixed width leaves them alone. -/
lemma fixed (h : Vars avail fl S (f :: fields) s) {s' : Wire ν} (hscope : s'.scope = s.scope) :
    Vars avail fl S fields s' := by
  refine ⟨?_, ?_, ?_, ?_⟩
  · rw [Wire.avail, hscope]
    exact h.avail
  · rw [Wire.fl, hscope]
    exact h.fl
  · rw [Wire.shift, hscope]
    exact h.shift
  · rw [hscope]
    exact h.visible.tail

/-- A string is counted. -/
lemma string (h : Vars avail fl S (f :: fields) s) (hf : f.type = .varstr) (t : CString) :
    Vars avail fl (S + lenAt s.mem s.p) fields (s.unpacked f.name t) := by
  have hkeep : ∀ x ∈ ownNames, x ≠ "_shift" →
      (s.unpacked f.name t).scope.get x = s.scope.get x := by
    intro x hx hne
    rw [Wire.unpacked]
    dsimp only
    rw [Scope.get_set_of_ne _ _ hne, Scope.get_set_of_ne _ _ (slenVar_ne f.name hx)]
  refine ⟨?_, ?_, ?_, h.visible.string hf _ _⟩
  · rw [Wire.avail, hkeep _ (by decide) (by decide)]
    exact h.avail
  · rw [Wire.fl, hkeep _ (by decide) (by decide)]
    exact h.fl
  · rw [Wire.shift, Wire.unpacked, Scope.get_set_self, h.shift]
    show toInt32 _ = _
    rw [toInt32_add]

omit [DecidableEq ν] in
/-- The check, as the variables have it. -/
lemma check_iff (h : Vars avail fl S (f :: fields) s) :
    (lenAt s.mem s.p = 0 ∨ toUint32 (s.scope.get "avail" - s.scope.get "_fl") <
      toUint32 (lenAt s.mem s.p + s.scope.get "_shift")) ↔ ¬ Fits avail fl s.mem s.p S := by
  have hshift := h.shift
  have havail := h.avail
  have hfl := h.fl
  rw [Wire.shift] at hshift
  rw [Wire.avail] at havail
  rw [Wire.fl] at hfl
  rw [hshift, havail, hfl, add_comm, toUint32_toInt32_add, Fits, not_and_or, not_not, not_le]

/-- A length that does not pass the check. -/
lemma reject (h : Vars avail fl S (f :: fields) s) (hnot : ¬ Fits avail fl s.mem s.p S) :
    runWire (unpackVarstr f.name) s = ⟨.error .rejected, touched .read s.p 2⟩ := by
  have hcheck := h.check_iff.mpr hnot
  rw [lenAt] at hcheck
  simp only [unpackVarstr, runWire, execWire, Traced.pure_bind, Traced.mk_bind, Wire.avail,
    Wire.shift, Wire.slen, Wire.fl, Scope.get_slen, Scope.get_avail, Scope.get_fl, Scope.get_shift,
    toInt32_toInt, if_pos hcheck, reject_bind]
  exact congrArg _ (List.append_nil _)

/-- **Unpacking a string.** -/
lemma accept (h : Vars avail fl S (f :: fields) s) (hfits : Fits avail fl s.mem s.p S)
    {t : CString} (ht : readText (terminated s.mem s.p) addressSpace (s.p + 2) = some t) :
    runWire (unpackVarstr f.name) s = ⟨.ok (s.unpacked f.name t),
      touched .read s.p 2 ++ .write (s.p + 2 + lenAt s.mem s.p - 1) ::
        touched .read (s.p + 2) (t.1.length + 1)⟩ := by
  have hcheck := mt h.check_iff.mp (not_not.mpr hfits)
  rw [lenAt] at hcheck
  rw [terminated, lenAt] at ht
  simp only [unpackVarstr, runWire, execWire, Traced.pure_bind, Traced.mk_bind, Wire.avail,
    Wire.shift, Wire.slen, Wire.fl, Scope.get_slen, Scope.get_slen_set, Scope.get_avail,
    Scope.get_fl, Scope.get_shift, toInt32_toInt, if_neg hcheck, Nat.cast_ofNat, ht]
  exact congrArg _ (congrArg _ (congrArg (List.cons _) (List.append_nil _)))

/-- A string without an end. -/
lemma runaway (h : Vars avail fl S (f :: fields) s) (hfits : Fits avail fl s.mem s.p S)
    (ht : readText (terminated s.mem s.p) addressSpace (s.p + 2) = none) :
    runWire (unpackVarstr f.name) s = ⟨.error .runaway,
      touched .read s.p 2 ++ .write (s.p + 2 + lenAt s.mem s.p - 1) ::
        touched .read (s.p + 2) addressSpace⟩ := by
  have hcheck := mt h.check_iff.mp (not_not.mpr hfits)
  rw [lenAt] at hcheck
  rw [terminated, lenAt] at ht
  simp only [unpackVarstr, runWire, execWire, Traced.pure_bind, Traced.mk_bind,
    Traced.error_bind, Wire.avail, Wire.shift, Wire.slen, Wire.fl, Scope.get_slen, Scope.get_avail,
    Scope.get_fl, Scope.get_shift, toInt32_toInt, if_neg hcheck, Nat.cast_ofNat, ht]
  rw [lenAt, List.singleton_append]

end Vars

/-- Unpacking a field of fixed width that nothing hides. -/
lemma runWire_unpackFixed (f : Field ν) {s : Wire ν} (hfree : s.scope (spell f.name) = none) :
    runWire [.unpackFixed f] s = ⟨.ok { s with
      msg := { s.msg with
        member := Function.update s.msg.member f.name (decodeField f.type (ahead s.mem s.p) 0) }
      p := s.p + fieldLen f.type }, touched .read s.p (fieldLen f.type)⟩ := by
  have hrun := run_unpackCode f (s := ⟨ahead s.mem s.p, 0, s.msg.member, s.scope⟩) hfree
  have hlog := map_shift_touched .read (Or.inl rfl) s.p (fieldLen f.type)
  simp only [runWire, execWire, hrun, Traced.value, Nat.zero_add, hlog, Traced.mk_bind]
  exact congrArg _ (List.append_nil _)

/-! ## Round trip -/

omit [Named ν] [DecidableEq ν] in
/-- A field of a message has come through. -/
def Restored (msg' msg : Message ν) (f : WireField ν) : Prop :=
  match f.type with
  | .fixed _ => msg'.member f.name = msg.member f.name
  | .varstr => msg'.text f.name = msg.text f.name

omit [Named ν] [DecidableEq ν] in
/-- The fields of fixed width have at most 32 bits, and hold values of their types. -/
def Narrow (msg : Message ν) (fields : List (WireField ν)) : Prop :=
  ∀ f ∈ fields, ∀ ft, f.type = .fixed ft → fieldLen ft ≤ 4 ∧ ft.InRange (msg.member f.name)

omit [Named ν] [DecidableEq ν] in
/-- The strings have lengths that survive. -/
def Plain (msg : Message ν) (fields : List (WireField ν)) : Prop :=
  ∀ f ∈ fields, f.type = .varstr → PlainLen (storedLen (msg.text f.name))

/-- The bytes of the length at the cursor. -/
lemma len_bytes {m : ℤ → UInt8} {p : ℤ} {n : ℕ} {bs : List UInt8}
    (h : Shows m p (leBytes 2 n ++ bs)) :
    (ahead m p 0).toNat = n % 256 ∧ (ahead m p 1).toNat = n / 256 % 256 := by
  have hshows := (shows_append.mp h).1
  have hlow : ahead m p 0 = UInt8.ofInt n := hshows.get (i := 0) (by simp)
  have hhigh : ahead m p 1 = UInt8.ofInt ((n : ℤ) / 256) := hshows.get (i := 1) (by simp)
  have hlow' := toNat_ofInt (n : ℤ)
  have hhigh' := toNat_ofInt ((n : ℤ) / 256)
  rw [hlow, hhigh]
  omega

/-- A length that survives is read as it was stored. -/
lemma lenAt_eq {m : ℤ → UInt8} {p : ℤ} {n : ℕ} {bs : List UInt8}
    (h : Shows m p (leBytes 2 n ++ bs)) (hplain : PlainLen n) : lenAt m p = n := by
  obtain ⟨hlow, hhigh⟩ := len_bytes h
  obtain ⟨hlo, hlt⟩ := hplain
  rw [lenAt, toInt_lowHalf (by omega) (by rw [Nat.zero_add]; omega), Nat.zero_add]
  omega

/-- **A field comes through**, where its bytes are at the cursor and its string fits. -/
lemma runWire_unpackWire {avail fl S : ℕ} {s : Wire ν} {msg : Message ν} {f : WireField ν}
    {fields : List (WireField ν)} (hvars : Vars avail fl S (f :: fields) s)
    (hshows : Shows s.mem s.p (encodeWire msg f))
    (hnarrow : ∀ ft, f.type = .fixed ft → fieldLen ft ≤ 4 ∧ ft.InRange (msg.member f.name))
    (hplain : f.type = .varstr → PlainLen (storedLen (msg.text f.name)))
    (havail : avail < 2 ^ 32) (hroom : S + shiftOf msg f + fl ≤ avail) :
    ∃ s' log, runWire (unpackWire f) s = ⟨.ok s', log⟩ ∧ s'.mem = s.mem ∧
      s'.p = s.p + (encodeWire msg f).length ∧
      Vars avail fl (S + shiftOf msg f : ℕ) fields s' ∧ Restored s'.msg msg f ∧
      ∀ g, g ≠ f.name → s'.msg.member g = s.msg.member g ∧ s'.msg.text g = s.msg.text g := by
  obtain ⟨name, type⟩ := f
  cases type with
  | fixed ft =>
      obtain ⟨hlen, hrange⟩ := hnarrow ft rfl
      have hvalue : decodeField ft (ahead s.mem s.p) 0 = msg.member name := by
        refine Eq.trans (decodeField_congr ?_) (decodeField_leBytes hlen hrange)
        rw [window_leBytes]
        have hwin : window (ahead s.mem s.p) 0 (encodeWire msg ⟨name, .fixed ft⟩).length =
          encodeWire msg ⟨name, .fixed ft⟩ := hshows
        rwa [length_encodeWire] at hwin
      have hrun := runWire_unpackFixed ⟨name, ft⟩ (hvars.visible.now _ List.mem_cons_self)
      refine ⟨_, _, hrun, rfl, ?_, hvars.fixed rfl, ?_, fun g hg => ⟨?_, rfl⟩⟩
      · rw [length_encodeWire]
        rfl
      · show Function.update s.msg.member name (decodeField ft (ahead s.mem s.p) 0) name = _
        rw [Function.update_self, hvalue]
      · exact Function.update_of_ne hg ..
  | varstr =>
      have hplain' : PlainLen (storedLen (msg.text name)) := hplain rfl
      have hlen : lenAt s.mem s.p = storedLen (msg.text name) := lenAt_eq hshows hplain'
      have htext : Shows s.mem (s.p + 2) ((msg.text name).1 ++ [0]) := by
        have h2 := (shows_append.mp hshows).2
        rwa [length_leBytes] at h2
      have hroom' : S + storedLen (msg.text name) + fl ≤ avail := hroom
      have hpos : 0 < storedLen (msg.text name) := Nat.succ_pos _
      have hfits : Fits avail fl s.mem s.p S := by
        refine ⟨by omega, ?_⟩
        rw [hlen, toUint32_of_lt (by omega) (by omega), toUint32_of_lt (by omega) (by omega)]
        omega
      -- the NUL is there already
      have hmem : terminated s.mem s.p = s.mem := by
        have hnul := htext.get (i := (msg.text name).1.length) (by simp)
        have haddr : s.p + 2 + lenAt s.mem s.p - 1 = s.p + 2 + (msg.text name).1.length := by
          rw [hlen, storedLen]
          omega
        rw [terminated, put_singleton, haddr, Function.update_eq_self_iff, hnul]
        simp
      have hread : readText (terminated s.mem s.p) addressSpace (s.p + 2) =
          some (msg.text name) := by
        rw [hmem]
        refine readText_of_shows htext ?_
        have hlt := hplain'.2
        rw [storedLen] at hlt
        rw [addressSpace]
        omega
      have hnext := hvars.string rfl (msg.text name)
      rw [hlen] at hnext
      refine ⟨_, _, hvars.accept hfits hread, hmem, ?_, ?_, ?_,
        fun g hg => ⟨rfl, Function.update_of_ne hg ..⟩⟩
      · show s.p + 2 + lenAt s.mem s.p = _
        rw [hlen, length_encodeWire]
        show s.p + 2 + (storedLen (msg.text name) : ℤ) = s.p + (2 + storedLen (msg.text name) : ℕ)
        omega
      · rw [Nat.cast_add]
        exact hnext
      · exact Function.update_self ..

/-- **A list of fields comes through.** -/
lemma runWire_unpack (post : List (WireField ν)) {avail fl S : ℕ} {s : Wire ν} {msg : Message ν}
    {fields : List (WireField ν)} (hnodup : (fields.map WireField.name).Nodup)
    (hvars : Vars avail fl S (fields ++ post) s)
    (hshows : Shows s.mem s.p (encodeWires msg fields)) (hnarrow : Narrow msg fields)
    (hplain : Plain msg fields) (havail : avail < 2 ^ 32)
    (hroom : S + shifts msg fields + fl ≤ avail) :
    ∃ s' log, runWire (fields.flatMap unpackWire) s = ⟨.ok s', log⟩ ∧ s'.mem = s.mem ∧
      s'.p = s.p + (encodeWires msg fields).length ∧
      Vars avail fl (S + shifts msg fields : ℕ) post s' ∧
      (∀ f ∈ fields, Restored s'.msg msg f) ∧
      ∀ g, g ∉ fields.map WireField.name →
        s'.msg.member g = s.msg.member g ∧ s'.msg.text g = s.msg.text g := by
  induction fields generalizing s S with
  | nil => exact ⟨s, [], rfl, rfl, (add_zero _).symm, hvars, by simp, fun g _ => ⟨rfl, rfl⟩⟩
  | cons f fields ih =>
      rw [List.map_cons, List.nodup_cons] at hnodup
      have hcons : shifts msg (f :: fields) = shiftOf msg f + shifts msg fields := List.sum_cons
      obtain ⟨hhead, htail⟩ := shows_append.mp
        (show Shows s.mem s.p (encodeWire msg f ++ encodeWires msg fields) from hshows)
      obtain ⟨s₁, log₁, hrun₁, hmem₁, hp₁, hvars₁, hres₁, hother₁⟩ :=
        runWire_unpackWire hvars hhead (hnarrow f List.mem_cons_self)
          (hplain f List.mem_cons_self) havail (by omega)
      obtain ⟨s₂, log₂, hrun₂, hmem₂, hp₂, hvars₂, hres₂, hother₂⟩ :=
        ih hnodup.2 hvars₁ (by rwa [hmem₁, hp₁])
          (fun g hg => hnarrow g (List.mem_cons_of_mem f hg))
          (fun g hg => hplain g (List.mem_cons_of_mem f hg)) (by omega)
      refine ⟨s₂, log₁ ++ log₂, ?_, hmem₂.trans hmem₁, ?_, ?_, ?_, ?_⟩
      · rw [List.flatMap_cons, runWire_append, hrun₁, Traced.mk_bind, hrun₂]
      · rw [hp₂, hp₁, add_assoc, ← Nat.cast_add, ← List.length_append]
        rfl
      · rw [hcons, ← Nat.add_assoc]
        exact hvars₂
      · intro g hg
        rcases List.mem_cons.mp hg with rfl | hg
        · have hkeep := hother₂ g.name hnodup.1
          simp only [Restored] at hres₁ ⊢
          rw [hkeep.1, hkeep.2]
          exact hres₁
        · exact hres₂ g hg
      · intro g hg
        rw [List.map_cons, List.mem_cons, not_or] at hg
        have h₁ := hother₁ g hg.1
        have h₂ := hother₂ g hg.2
        exact ⟨h₂.1.trans h₁.1, h₂.2.trans h₁.2⟩

/-- **A message comes through**: `pack` into a buffer that is large enough returns `ret`, and
`unpack` of that many bytes returns `ret` and restores every field. -/
def RoundTrips (body : Schema ν) (msg : Message ν) : Prop :=
  ∀ mem p avail msg₀, widths body.fields + shifts msg body.fields ≤ avail → avail < 2 ^ 32 →
    ∃ mem' ret log msg' log', body.pack msg mem (some p) avail = ⟨.ok (mem', ret), log⟩ ∧
      body.unpack msg₀ mem' (some p) (toUint32 ret).toNat = ⟨.ok (msg', ret), log'⟩ ∧
      ∀ f ∈ body.fields, Restored msg' msg f

omit [Named ν] [DecidableEq ν] in
lemma short_of_plain {msg : Message ν} {fields : List (WireField ν)} (h : Plain msg fields) :
    Short msg fields := by
  intro f hf hvar
  have hlt := (h f hf hvar).2
  rw [storedLen] at hlt
  omega

/-- What `pack` returns as an `int` is the number of bytes as a `uint32_t`. -/
lemma toUint32_toInt32 {n : ℕ} (h : n < 2 ^ 32) : (toUint32 (toInt32 n)).toNat = n := by
  have hadd := toUint32_toInt32_add n 0
  rw [add_zero, add_zero, toUint32_of_lt (z := n) (by omega) (by omega)] at hadd
  rw [hadd]
  rfl

omit [DecidableEq ν] in
/-- The variables of `unpack` at the start. -/
lemma vars_start {body : Schema ν} (hclear : body.Clear) (mem : ℤ → UInt8) (p : ℤ)
    (msg : Message ν) (avail fl : ℕ) :
    Vars avail fl 0 body.fields ⟨mem, p, msg, unpackScope avail fl⟩ :=
  ⟨rfl, rfl, rfl, hclear.unpack avail fl⟩

/-- **Messages whose lengths survive come through.** -/
lemma roundTrips_of_plain {body : Schema ν} {msg : Message ν} (hclear : body.Clear)
    (hnarrow : Narrow msg body.fields) (hplain : Plain msg body.fields) : RoundTrips body msg := by
  intro mem p avail msg₀ hroom havail
  have hfl : u32 body.genCppBody.fixedLen = widths body.fields :=
    u32_of_lt (show widths body.fields < 2 ^ 32 by omega)
  rcases pack_cases (short_of_plain hplain) mem p havail with ⟨-, hlt⟩ | ⟨bs, -, hpack, hbytes⟩
  · omega
  · obtain rfl := hbytes hclear
    have hsize := toUint32_toInt32 (n := widths body.fields + shifts msg body.fields) (by omega)
    have hvars := vars_start hclear (put mem p (encodeWires msg body.fields)) p msg₀
      (widths body.fields + shifts msg body.fields) (widths body.fields)
    obtain ⟨s', log', hrun, -, -, hvars', hres, -⟩ := runWire_unpack [] (S := 0)
      body.nodup (by rwa [List.append_nil]) (shows_put _ _ _) hnarrow hplain (by omega) (by omega)
    refine ⟨_, _, _, s'.msg, log', hpack, ?_, hres⟩
    rw [hsize]
    simp only [Schema.unpack]
    rw [if_neg (by omega), hfl,
      show body.genCppBody.unpack = body.fields.flatMap unpackWire from rfl, hrun, Traced.mk_bind,
      hvars'.shift, hvars'.fl, toInt32_add, Nat.zero_add]
    have hret : ((shifts msg body.fields : ℕ) : ℤ) + (widths body.fields : ℕ) =
        (widths body.fields + shifts msg body.fields : ℕ) := by omega
    rw [hret]
    exact congrArg _ (List.append_nil _)

/-! ## Lengths that do not survive -/

/-- They are read as negative numbers. -/
lemma lenAt_neg {m : ℤ → UInt8} {p : ℤ} {n : ℕ} {bs : List UInt8}
    (h : Shows m p (leBytes 2 n ++ bs)) (hn : n < 2 ^ 16) (hnot : ¬ PlainLen n) :
    -2 ^ 31 ≤ lenAt m p ∧ lenAt m p < 0 := by
  obtain ⟨hlow, hhigh⟩ := len_bytes h
  refine ⟨BitVec.le_toInt _, toInt_lowHalf_neg ?_⟩
  rw [Nat.zero_add, hlow, hhigh]
  by_contra hsmall
  exact hnot ⟨by omega, by omega⟩

/-- A string with such a length is refused, or the return value is wrong by then. -/
lemma runWire_unpackVarstr_neg {avail fl S : ℕ} {s : Wire ν} {t : CString} {f : WireField ν}
    {fields : List (WireField ν)} (hvars : Vars avail fl S (f :: fields) s)
    (hf : f.type = .varstr) (hshows : Shows s.mem s.p (leBytes 2 (storedLen t) ++ (t.1 ++ [0])))
    (hlen : storedLen t < 2 ^ 16) (hnot : ¬ PlainLen (storedLen t)) :
    ((runWire (unpackVarstr f.name) s).result = .error .rejected) ∨
      ¬ (avail < 2 ^ 31 ∧ fl ≤ avail ∧ S = 0) ∧
      ∃ s' log, runWire (unpackVarstr f.name) s = ⟨.ok s', log⟩ ∧
        toInt32 (s'.shift + s'.fl) ≠ toInt32 (S + storedLen t + fl : ℕ) := by
  obtain ⟨hge, hneg⟩ := lenAt_neg hshows hlen hnot
  by_cases hfits : Fits avail fl s.mem s.p S
  · have htext : Shows s.mem (s.p + 2) (t.1 ++ [0]) := by
      have h2 := (shows_append.mp hshows).2
      rwa [length_leBytes] at h2
    have hread : readText (terminated s.mem s.p) addressSpace (s.p + 2) = some t := by
      refine readText_of_shows (htext.congr fun a ha _ => put_of_le ?_) ?_
      · simp only [List.length_singleton]
        omega
      · rw [storedLen] at hlen
        rw [addressSpace]
        omega
    refine Or.inr ⟨fun hfirst => ?_, _, _, hvars.accept hfits hread, ?_⟩
    · obtain ⟨havail, hfl, hS⟩ := hfirst
      -- nothing has been added to `_shift` that could make up for the sign
      have hle := hfits.2
      rw [hS, toUint32_of_lt (z := (avail : ℤ) - fl) (by omega) (by omega), toUint32] at hle
      omega
    · have hvars' := hvars.string hf t
      rw [hvars'.shift, hvars'.fl, toInt32_add]
      intro heq
      have hmod := congrArg toUint32 heq
      have hl := toUint32_toInt32_add (S + lenAt s.mem s.p + fl) 0
      have hr := toUint32_toInt32_add (S + storedLen t + fl : ℕ) 0
      rw [add_zero, add_zero] at hl hr
      rw [hl, hr, toUint32, toUint32] at hmod
      omega
  · left
    rw [hvars.reject hfits]

omit [Named ν] [DecidableEq ν] in
/-- Fields without strings add nothing to `_shift`. -/
lemma shifts_eq_zero {msg : Message ν} {fields : List (WireField ν)}
    (h : ∀ f ∈ fields, f.type ≠ .varstr) : shifts msg fields = 0 := by
  refine List.sum_eq_zero fun n hn => ?_
  obtain ⟨f, hf, rfl⟩ := List.mem_map.mp hn
  rw [shiftOf]
  cases hft : f.type with
  | fixed ft => rfl
  | varstr => exact absurd hft (h f hf)

/-- **A string whose length does not survive spoils the message**, where it is the first string or
the last field. -/
lemma plain_of_roundTrips {body : Schema ν} {msg : Message ν} {pre post : List (WireField ν)}
    {f : WireField ν} (hclear : body.Clear) (hfields : body.fields = pre ++ f :: post)
    (hnarrow : Narrow msg body.fields)
    (hsized : ∀ g ∈ body.fields, g.type = .varstr → (msg.text g.name).1.length ≤ 65533)
    (htotal : widths body.fields + shifts msg body.fields < 2 ^ 31) (hpre : Plain msg pre)
    (hvar : f.type = .varstr) (hplace : (∀ g ∈ pre, g.type ≠ .varstr) ∨ post = [])
    (hround : RoundTrips body msg) : PlainLen (storedLen (msg.text f.name)) := by
  by_contra hnot
  have hfl : u32 body.genCppBody.fixedLen = widths body.fields :=
    u32_of_lt (show widths body.fields < 2 ^ 32 by omega)
  have hshort : Short msg body.fields := fun g hg hv => by
    have := hsized g hg hv
    omega
  have hmem : ∀ g ∈ pre, g ∈ body.fields := fun g hg => by
    rw [hfields]
    exact List.mem_append_left _ hg
  have hlen : storedLen (msg.text f.name) < 2 ^ 16 := by
    have := hsized f (by simp [hfields]) hvar
    rw [storedLen]
    omega
  have hsplit : shifts msg body.fields =
      shifts msg pre + (storedLen (msg.text f.name) + shifts msg post) := by
    simp [hfields, shifts, shiftOf, hvar]
  obtain ⟨mem', ret, log, msg', log', hpack, hunpack, -⟩ :=
    hround (fun _ => 0) 0 (widths body.fields + shifts msg body.fields) msg (Nat.le_refl _)
      (by omega)
  rcases pack_cases hshort (fun _ => 0) 0
    (show widths body.fields + shifts msg body.fields < 2 ^ 32 by omega) with
    ⟨-, hlt⟩ | ⟨bs, -, hpack', hbs⟩
  · omega
  obtain rfl := hbs hclear
  obtain ⟨hok, -⟩ := Traced.mk.inj (hpack'.symm.trans hpack)
  obtain ⟨rfl, rfl⟩ := Prod.mk.inj (Except.ok.inj hok)
  -- up to the string everything is read as it was packed
  have hshows := shows_put (fun _ => 0) 0 (encodeWires msg body.fields)
  have hbytes : encodeWires msg body.fields =
      encodeWires msg pre ++ (encodeWire msg f ++ encodeWires msg post) := by
    simp [hfields, encodeWires]
  rw [hbytes] at hshows
  obtain ⟨hshows₁, hshows₂⟩ := shows_append.mp hshows
  have hnodup : (pre.map WireField.name).Nodup := by
    have h := body.nodup
    rw [hfields, List.map_append] at h
    exact (List.nodup_append.mp h).1
  have hvars := vars_start hclear
    (put (fun _ => 0) 0 (encodeWires msg pre ++ (encodeWire msg f ++ encodeWires msg post))) 0 msg
    (widths body.fields + shifts msg body.fields) (widths body.fields)
  rw [hfields, ← hfields] at hvars
  obtain ⟨s₁, log₁, hrun₁, hmem₁, hp₁, hvars₁, -⟩ := runWire_unpack (f :: post) (S := 0)
    hnodup (by rw [← hfields]; exact hvars) hshows₁ (fun g hg => hnarrow g (hmem g hg)) hpre
    (by omega) (by omega)
  have hshows₃ : Shows s₁.mem s₁.p (encodeWire msg f) := by
    rw [hmem₁, hp₁]
    exact (shows_append.mp hshows₂).1
  rw [encodeWire, hvar] at hshows₃
  rw [toUint32_toInt32 (by omega)] at hunpack
  simp only [Schema.unpack] at hunpack
  rw [if_neg (by omega), hfl,
    show body.genCppBody.unpack = body.fields.flatMap unpackWire from rfl, hbytes, hfields,
    List.flatMap_append, List.flatMap_cons, runWire_append, ← hfields, hrun₁, Traced.mk_bind,
    runWire_append] at hunpack
  have hres := congrArg Traced.result hunpack
  rw [Traced.result_bind, Traced.result_bind, unpackWire, hvar] at hres
  rcases runWire_unpackVarstr_neg hvars₁ hvar hshows₃ hlen hnot with
    hrej | ⟨hfirst, s₂, log₂, hrun₂, hret⟩
  · dsimp only at hres
    rw [hrej] at hres
    cases hres
  · rcases hplace with hnone | rfl
    · refine hfirst ⟨htotal, Nat.le_add_right _ _, ?_⟩
      rw [Nat.zero_add, shifts_eq_zero hnone]
    · dsimp only at hres
      rw [hrun₂] at hres
      obtain ⟨-, hret'⟩ := Prod.mk.inj (Except.ok.inj hres)
      refine hret (hret'.trans ?_)
      have hnil : shifts msg ([] : List (WireField ν)) = 0 := rfl
      congr 2
      omega

/-! ## Memory -/

/-- An access to one of the `avail` bytes from `p` on. -/
def Inside (p : ℤ) (avail : ℕ) : Access → Prop
  | .read a => p ≤ a ∧ a < p + avail
  | .write a => p ≤ a ∧ a < p + avail

omit [Named ν] [DecidableEq ν] in
/-- **The strings `unpack` accepts lie in the `avail` bytes from `b` on**, when it reads the fields
from `p` on behind strings that have taken `S` bytes: wherever the check of a length passes, the NUL
is put among these bytes, and one of those from the start of the string on is a NUL then. -/
def Contained (b : ℤ) (avail fl : ℕ) : List (WireField ν) → (ℤ → UInt8) → ℤ → ℤ → Prop
  | [], _, _, _ => True
  | f :: fields, m, p, S =>
      match f.type with
      | .fixed ft => Contained b avail fl fields m (p + fieldLen ft) S
      | .varstr => Fits avail fl m p S →
          (b < p + 2 + lenAt m p ∧ p + 2 + lenAt m p ≤ b + avail) ∧
          (∃ a, p + 2 ≤ a ∧ a < b + avail ∧ terminated m p a = 0) ∧
          Contained b avail fl fields (terminated m p) (p + 2 + lenAt m p) (S + lenAt m p)

omit [Named ν] [DecidableEq ν] in
/-- **`unpack` gives the bytes up**: every string that passes the check ends somewhere, until one
does not pass it.  A message of `2 ^ 32 - 1` bytes is given up by its length. -/
def GivenUp (avail fl : ℕ) : List (WireField ν) → (ℤ → UInt8) → ℤ → ℤ → Prop
  | [], _, _, S => toInt32 (S + fl) = -1
  | f :: fields, m, p, S =>
      match f.type with
      | .fixed ft => GivenUp avail fl fields m (p + fieldLen ft) S
      | .varstr => Fits avail fl m p S →
          (∃ n < addressSpace, terminated m p (p + 2 + (n : ℕ)) = 0) ∧
          GivenUp avail fl fields (terminated m p) (p + 2 + lenAt m p) (S + lenAt m p)

/-- **Where `unpack` stands** in the `avail` bytes from `b` on, with the fields `fields` still to be
read. -/
structure Standing (b : ℤ) (avail fl : ℕ) (fields : List (WireField ν)) (S : ℤ) (s : Wire ν) :
    Prop where
  vars : Vars avail fl S fields s
  lower : b ≤ s.p
  cursor : s.p + widths fields = b + fl + S
  budget : S + fl ≤ avail
  fits : fl ≤ avail
  width : widths fields ≤ fl

lemma inside_touched {kind : ℤ → Access} {b p : ℤ} {avail n : ℕ}
    (hkind : kind = .read ∨ kind = .write) (hp : b ≤ p) (hn : p + n ≤ b + avail) :
    ∀ w ∈ touched kind p n, Inside b avail w := by
  intro w hw
  obtain ⟨i, hi, rfl⟩ := List.mem_map.mp hw
  have := List.mem_range.mp hi
  rcases hkind with rfl | rfl
  · exact ⟨by omega, by omega⟩
  · exact ⟨by omega, by omega⟩

/-- The last byte of a string that is read. -/
lemma mem_touched_last (p : ℤ) (n : ℕ) : .read (p + n) ∈ touched .read p (n + 1) :=
  List.mem_map.mpr ⟨n, List.mem_range.mpr (Nat.lt_succ_self n), rfl⟩

namespace Standing

variable {b : ℤ} {avail fl : ℕ} {S : ℤ} {f : WireField ν} {fields : List (WireField ν)}
  {s : Wire ν} {ft : FieldType}

omit [DecidableEq ν] in
/-- Behind a field of fixed width. -/
lemma fixed (h : Standing b avail fl (f :: fields) S s) (hf : f.type = .fixed ft) {s' : Wire ν}
    (hp : s'.p = s.p + fieldLen ft) (hscope : s'.scope = s.scope) :
    Standing b avail fl fields S s' := by
  obtain ⟨hvars, hlower, hcursor, hbudget, hfits, hwidth⟩ := h
  have hcons : widths (f :: fields) = fieldLen ft + widths fields := by
    rw [widths, List.map_cons, List.sum_cons, hf]
    rfl
  exact ⟨hvars.fixed hscope, by omega, by omega, hbudget, hfits, by omega⟩

/-- Behind a string whose NUL has been put among the bytes. -/
lemma string (h : Standing b avail fl (f :: fields) S s) (hf : f.type = .varstr)
    (havail : avail < 2 ^ 32) (hfits : Fits avail fl s.mem s.p S)
    (hnul : b < s.p + 2 + lenAt s.mem s.p ∧ s.p + 2 + lenAt s.mem s.p ≤ b + avail) (t : CString) :
    Standing b avail fl fields (S + lenAt s.mem s.p) (s.unpacked f.name t) := by
  obtain ⟨hvars, hlower, hcursor, hbudget, hle, hwidth⟩ := h
  have hcons : widths (f :: fields) = 2 + widths fields := by
    rw [widths, List.map_cons, List.sum_cons, hf]
    rfl
  have hp : (s.unpacked f.name t).p = s.p + 2 + lenAt s.mem s.p := rfl
  refine ⟨hvars.string hf t, by omega, by omega, ?_, hle, by omega⟩
  -- the sum is not negative in a way that matters, and has not come round
  have hsum := hfits.2
  rw [toUint32_of_lt (z := (avail : ℤ) - fl) (by omega) (by omega), toUint32] at hsum
  omega

/-- **All of `unpack` stays inside** if and only if the strings it accepts are contained. -/
lemma inside_iff (h : Standing b avail fl fields S s) (havail : avail < 2 ^ 32) :
    (∀ w ∈ (runWire (fields.flatMap unpackWire) s).log, Inside b avail w) ↔
      Contained b avail fl fields s.mem s.p S := by
  induction fields generalizing s S with
  | nil => exact iff_of_true (fun w hw => absurd hw List.not_mem_nil) trivial
  | cons f fields ih =>
      have hcursor := h.cursor
      have hbudget := h.budget
      have hlower := h.lower
      rw [List.flatMap_cons, runWire_append]
      obtain ⟨name, type⟩ := f
      cases type with
      | fixed ft =>
          have hcons : widths (⟨name, .fixed ft⟩ :: fields) = fieldLen ft + widths fields :=
            List.sum_cons
          have hrun := runWire_unpackFixed ⟨name, ft⟩ (h.vars.visible.now _ List.mem_cons_self)
          have hhead : ∀ w ∈ touched .read s.p (fieldLen ft), Inside b avail w :=
            inside_touched (Or.inl rfl) hlower (by omega)
          rw [show unpackWire ⟨name, .fixed ft⟩ = [.unpackFixed ⟨name, ft⟩] from rfl, hrun,
            Traced.mk_bind, List.forall_mem_append, and_iff_right hhead]
          exact ih (h.fixed rfl rfl rfl)
      | varstr =>
          have hcons : widths (⟨name, .varstr⟩ :: fields) = 2 + widths fields := List.sum_cons
          have hhead : ∀ w ∈ touched .read s.p 2, Inside b avail w :=
            inside_touched (Or.inl rfl) hlower (by omega)
          rw [show unpackWire ⟨name, .varstr⟩ = unpackVarstr name from rfl]
          by_cases hfits : Fits avail fl s.mem s.p S
          · have hput : Inside b avail (.write (s.p + 2 + lenAt s.mem s.p - 1)) ↔
                b < s.p + 2 + lenAt s.mem s.p ∧ s.p + 2 + lenAt s.mem s.p ≤ b + avail := by
              show b ≤ _ ∧ _ < b + avail ↔ _
              omega
            have hcontained : Contained b avail fl (⟨name, .varstr⟩ :: fields) s.mem s.p S ↔ _ :=
              forall_prop_of_true hfits
            rw [hcontained]
            cases ht : readText (terminated s.mem s.p) addressSpace (s.p + 2) with
            | some t =>
                obtain ⟨-, hend⟩ := nul_of_readText ht
                rw [h.vars.accept hfits ht, Traced.mk_bind, List.forall_mem_append,
                  List.forall_mem_append, List.forall_mem_cons, and_iff_right hhead, hput,
                  and_assoc]
                refine and_congr_right fun hnul => ?_
                refine and_congr ⟨fun htext => ?_, ?_⟩ (ih (h.string rfl havail hfits hnul t))
                · exact ⟨_, by omega, (htext _ (mem_touched_last _ _)).2, hend⟩
                · rintro ⟨a, hge, hlt, ha⟩
                  -- the string that was read is not longer than up to this NUL
                  obtain ⟨n, hn⟩ := Int.eq_ofNat_of_zero_le (Int.sub_nonneg_of_le hge)
                  have hnul' : terminated s.mem s.p (s.p + 2 + n) = 0 := by
                    rw [← ha, ← hn]
                    congr 1
                    omega
                  obtain ⟨u, hu, hle⟩ := readText_of_nul hnul'
                    (show n < addressSpace by rw [addressSpace]; omega)
                  obtain rfl := Option.some.inj (ht.symm.trans hu)
                  exact inside_touched (Or.inl rfl) (by omega) (by omega)
            | none =>
                rw [h.vars.runaway hfits ht, Traced.error_bind]
                refine iff_of_false (fun hall => ?_) ?_
                · have hlast := hall _ (List.mem_append_right _ (List.mem_cons_of_mem _
                    (mem_touched_last (s.p + 2) (addressSpace - 1))))
                  have := hlast.2
                  rw [addressSpace] at this
                  omega
                · rintro ⟨-, ⟨a, hge, hlt, ha⟩, -⟩
                  obtain ⟨n, hn⟩ := Int.eq_ofNat_of_zero_le (Int.sub_nonneg_of_le hge)
                  have hnul' : terminated s.mem s.p (s.p + 2 + n) = 0 := by
                    rw [← ha, ← hn]
                    congr 1
                    omega
                  obtain ⟨u, hu, -⟩ := readText_of_nul hnul'
                    (show n < addressSpace by rw [addressSpace]; omega)
                  rw [ht] at hu
                  cases hu
          · rw [h.vars.reject hfits, Traced.error_bind]
            exact iff_of_true hhead fun hyes => absurd hyes hfits

end Standing

/-- **`unpack` returns -1** past its check of the room if and only if it gives the bytes up. -/
lemma givenUp_iff {avail fl : ℕ} {S : ℤ} {fields : List (WireField ν)} {s : Wire ν}
    (h : Vars avail fl S fields s) :
    returned (runWire (fields.flatMap unpackWire) s >>= fun s =>
      pure (s.msg, toInt32 (s.shift + s.fl))) = some (-1) ↔
      GivenUp avail fl fields s.mem s.p S := by
  induction fields generalizing s S with
  | nil =>
      have hret : toInt32 (s.shift + s.fl) = toInt32 (S + fl) := by
        rw [h.shift, h.fl, toInt32_add]
      show some (toInt32 (s.shift + s.fl)) = some (-1) ↔ toInt32 (S + fl) = -1
      rw [hret, Option.some_inj]
  | cons f fields ih =>
      rw [List.flatMap_cons, runWire_append, Traced.bind_assoc]
      obtain ⟨name, type⟩ := f
      cases type with
      | fixed ft =>
          have hrun := runWire_unpackFixed ⟨name, ft⟩ (h.visible.now _ List.mem_cons_self)
          rw [show unpackWire ⟨name, .fixed ft⟩ = [.unpackFixed ⟨name, ft⟩] from rfl, hrun,
            Traced.mk_bind]
          exact ih (h.fixed rfl)
      | varstr =>
          rw [show unpackWire ⟨name, .varstr⟩ = unpackVarstr name from rfl]
          by_cases hfits : Fits avail fl s.mem s.p S
          · have hgiven : GivenUp avail fl (⟨name, .varstr⟩ :: fields) s.mem s.p S ↔ _ :=
              forall_prop_of_true hfits
            rw [hgiven]
            cases ht : readText (terminated s.mem s.p) addressSpace (s.p + 2) with
            | some t =>
                rw [h.accept hfits ht, Traced.mk_bind, and_iff_right ⟨_, nul_of_readText ht⟩]
                exact ih (h.string rfl t)
            | none =>
                rw [h.runaway hfits ht, Traced.error_bind]
                refine iff_of_false nofun ?_
                rintro ⟨⟨n, hn, hnul⟩, -⟩
                obtain ⟨u, hu, -⟩ := readText_of_nul hnul hn
                rw [ht] at hu
                cases hu
          · rw [h.reject hfits, Traced.error_bind]
            exact iff_of_true rfl fun hyes => absurd hyes hfits

/-- **When `unpack` returns -1 or stays inside the bytes it was given.** -/
lemma unpack_inside_iff {body : Schema ν} (hclear : body.Clear) {mem : ℤ → UInt8} {p : ℤ}
    {avail : ℕ} (msg₀ : Message ν) (hwidth : widths body.fields < 2 ^ 32)
    (havail : avail < 2 ^ 32) :
    (returned (body.unpack msg₀ mem (some p) avail) = some (-1) ∨
      ∀ w ∈ (body.unpack msg₀ mem (some p) avail).log, Inside p avail w) ↔
      avail < widths body.fields ∨ GivenUp avail (widths body.fields) body.fields mem p 0 ∨
        Contained p avail (widths body.fields) body.fields mem p 0 := by
  have hfl : u32 body.genCppBody.fixedLen = widths body.fields := u32_of_lt hwidth
  have hvars := vars_start hclear mem p msg₀ avail (widths body.fields)
  simp only [Schema.unpack, hfl]
  split_ifs with hlt
  · exact iff_of_true (Or.inl rfl) (Or.inl hlt)
  · have hstands : Standing p avail (widths body.fields) body.fields 0
        ⟨mem, p, msg₀, unpackScope avail (widths body.fields)⟩ :=
      ⟨hvars, le_refl p, by simp, by omega, not_lt.mp hlt, Nat.le_refl _⟩
    have hinside := hstands.inside_iff havail
    rw [or_iff_right hlt]
    refine or_congr (givenUp_iff hvars) (Iff.trans ?_ hinside)
    rw [Traced.log_bind_pure]
    rfl

/-! ## The emitted functions -/

/-- **String fields survive the wire** when both bytes of every stored length are below 128;
conversely a length that does not survive spoils a message, where it is that of the first string or
of the last field.  And `unpack` returns -1 or stays inside the bytes it was given if and only if
they are too few, or it gives them up, or the strings it accepts are contained in them. -/
theorem strings_survive {body : Schema ν} (hclear : body.Clear) :
    (∀ msg, Narrow msg body.fields → Plain msg body.fields → RoundTrips body msg) ∧
    (∀ msg pre f post, body.fields = pre ++ f :: post → Narrow msg body.fields →
      (∀ g ∈ body.fields, g.type = .varstr → (msg.text g.name).1.length ≤ 65533) →
      widths body.fields + shifts msg body.fields < 2 ^ 31 → Plain msg pre → f.type = .varstr →
      ((∀ g ∈ pre, g.type ≠ .varstr) ∨ post = []) →
      (RoundTrips body msg → PlainLen (storedLen (msg.text f.name)))) ∧
    ∀ mem p avail msg₀, widths body.fields < 2 ^ 32 → avail < 2 ^ 32 →
      ((returned (body.unpack msg₀ mem (some p) avail) = some (-1) ∨
          ∀ w ∈ (body.unpack msg₀ mem (some p) avail).log, Inside p avail w) ↔
        avail < widths body.fields ∨ GivenUp avail (widths body.fields) body.fields mem p 0 ∨
          Contained p avail (widths body.fields) body.fields mem p 0) := by
  refine ⟨fun msg hnarrow hplain => roundTrips_of_plain hclear hnarrow hplain, ?_, ?_⟩
  · intro msg pre f post hfields hnarrow hsized htotal hpre hvar hplace
    exact plain_of_roundTrips hclear hfields hnarrow hsized htotal hpre hvar hplace
  · intro mem p avail msg₀ hwidth havail
    exact unpack_inside_iff hclear msg₀ hwidth havail

/-- A letter behind a number. -/
theorem strings_survive_letter : RoundTrips idAndName ⟨fun _ => 7, fun _ => letterA⟩ := by
  have hclear : idAndName.Clear := by decide
  refine (strings_survive hclear).1 _ (fun f hf ft hft => ?_) fun f _ _ => ?_
  · rcases List.mem_cons.mp hf with rfl | hf
    · cases hft
      exact ⟨by decide, by decide⟩
    · rw [List.mem_singleton.mp hf] at hft
      cases hft
  · show PlainLen 2
    decide

/-- Two strings. -/
def twoNames : Schema String := ⟨[⟨"first", .varstr⟩, ⟨"last", .varstr⟩], by decide⟩

/-- A string of 127 letters. -/
def letters127 : CString := ⟨List.replicate 127 97, by decide⟩

/-- **Lengths with a byte from 128 on** are not read as they were stored: a string of 127 letters
does not come through, and a second string of length -1 makes `unpack` read behind the five bytes it
was given. -/
theorem strings_misread :
    ¬ RoundTrips nameOnly ⟨fun _ => 0, fun _ => letters127⟩ ∧
    ∃ (mem : ℤ → UInt8) (msg₀ : Message String),
      returned (twoNames.unpack msg₀ mem (some 0) 5) = some 4 ∧
      .read 5 ∈ (twoNames.unpack msg₀ mem (some 0) 5).log := by
  constructor
  · intro hround
    have hstored : storedLen letters127 = 128 := by simp [storedLen, letters127]
    have hfields : nameOnly.fields = [] ++ ⟨"name", .varstr⟩ :: [] := rfl
    have hnarrow : Narrow ⟨fun _ => 0, fun _ => letters127⟩ nameOnly.fields := by
      intro f hf ft hft
      rw [List.mem_singleton.mp hf] at hft
      cases hft
    have htotal : widths nameOnly.fields +
        shifts ⟨fun _ => 0, fun _ => letters127⟩ nameOnly.fields < 2 ^ 31 := by
      simp [widths, shifts, nameOnly, wireLen, shiftOf, hstored]
    have hsized : letters127.1.length ≤ 65533 := by simp [letters127]
    have hplain := plain_of_roundTrips (by decide) hfields hnarrow (fun _ _ _ => hsized) htotal
      (fun g hg => absurd hg List.not_mem_nil) rfl (Or.inr rfl) hround
    dsimp only at hplain
    rw [hstored] at hplain
    exact absurd hplain (by decide)
  · refine ⟨fun a => [1, 0, 0, 255, 255, 1, 0].getD a.toNat 0,
      ⟨fun _ => 0, fun _ => letterA⟩, ?_, ?_⟩
    · decide
    · decide

end Codegen

end Axon
