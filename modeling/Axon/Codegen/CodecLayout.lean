import Axon.Codegen.ProtoGenCpp
import Mathlib.Algebra.BigOperators.Group.List.Basic

/-!
# The layout the generated codecs agree on

What the emitted statements of one field do, what the ones of a whole body do by induction on its
fields, and what follows for the emitted functions.

* **`run_packCode`**, **`run_unpackCode`** : one field is packed into its bytes in two's complement
  and taken from the same place; both move the cursor by the width in the length table, and touch
  the bytes they move over.
* **`encodeFields`**, **`decodeFields`**, **`run_pack`**, **`run_unpack`** : the same for a body.
* **`decodeFields_encodeFields`** : each field is taken from the bytes it was packed into, whatever
  precedes or follows it.
* **`Body.Clear`** : no member is named like a variable of the emitted functions.
* **`codec_layout`** : the emitted functions, for such bodies.
-/

namespace Axon

open Library

namespace Codegen

/-! ## Names -/

/-- The names of the parameters and of the locals that every emitted function may have. -/
def ownNames : List String := ["p", "avail", "_fl", "_shift", "ret", "ptmp"]

lemma packScope_of_clear {x : String} (hx : x ∉ ownNames) (avail fl : ℕ) :
    packScope avail fl x = none := by
  simp only [ownNames, List.mem_cons, List.not_mem_nil, or_false, not_or] at hx
  obtain ⟨-, havail, hfl, hshift, hret, -⟩ := hx
  rw [packScope, if_neg hret, unpackScope, if_neg havail, if_neg hfl, if_neg hshift]

lemma unpackScope_of_clear {x : String} (hx : x ∉ ownNames) (avail fl : ℕ) :
    unpackScope avail fl x = none := by
  have h := packScope_of_clear hx avail fl
  have hret : x ≠ "ret" := by
    rintro rfl
    exact hx (by decide)
  rwa [packScope, if_neg hret] at h

/-! ## The `int`s -/

@[simp] lemma toInt32_add (x y : ℤ) : toInt32 (toInt32 x + y) = toInt32 (x + y) :=
  Int.bmod_add_bmod

lemma toInt32_of_lt {z : ℤ} (h : -2 ^ 31 ≤ z) (h' : z < 2 ^ 31) : toInt32 z = z :=
  Int.bmod_eq_of_le (by omega) (by omega)

lemma toUint32_of_lt {z : ℤ} (h : 0 ≤ z) (h' : z < 2 ^ 32) : toUint32 z = z :=
  Int.emod_eq_of_lt h h'

/-! ## Accesses -/

lemma touched_add (kind : ℤ → Access) (p : ℤ) (a b : ℕ) :
    touched kind p (a + b) = touched kind p a ++ touched kind (p + a) b := by
  simp only [touched, List.range_add, List.map_append, List.map_map]
  congr 1
  refine List.map_congr_left fun i _ => ?_
  simp [add_assoc]

lemma touched_one (kind : ℤ → Access) (p : ℤ) : touched kind p 1 = [kind p] := by
  simp [touched]

variable {ν : Type} [DecidableEq ν]

/-! ## One field -/

/-- Bytes stored one by one, from the byte `i` of the member on. -/
lemma run_storeBytes [Named ν] (f : Field ν) (k i : ℕ) (s : Machine ν) :
    run ((List.range' i k).map fun j => Stmt.storeByte f (8 * j)) s =
      ⟨.ok { s with
        mem := blit s.mem s.p (leBytes k (s.get f.name / 256 ^ i)), p := s.p + k },
        touched .write s.p k⟩ := by
  induction k generalizing i s with
  | zero =>
      have hnil : blit s.mem s.p [] = s.mem := by
        funext j
        simp [blit]
      rw [leBytes, hnil]
      rfl
  | succ k ih =>
      have hbyte : s.get f.name / 2 ^ (8 * i) = s.get f.name / 256 ^ i := by
        rw [pow_mul]
        rfl
      have hrest : s.get f.name / 256 ^ (i + 1) = s.get f.name / 256 ^ i / 256 := by
        rw [pow_succ, Int.ediv_mul_of_nonneg (Int.pow_nonneg (by decide))]
      have hlog : touched .write (s.p : ℤ) (k + 1) =
          .write (s.p : ℤ) :: touched .write (s.p + 1 : ℕ) k := by
        rw [Nat.add_comm k, touched_add, touched_one]
        rfl
      rw [List.range'_succ, List.map_cons, run, exec, Traced.mk_bind, ih, hbyte, leBytes, hlog,
        Nat.add_comm k 1, ← Nat.add_assoc]
      have hrun : blit (blit s.mem s.p [UInt8.ofInt (s.get f.name / 256 ^ i)]) (s.p + 1)
          (leBytes k (s.get f.name / 256 ^ (i + 1))) =
          blit s.mem s.p (UInt8.ofInt (s.get f.name / 256 ^ i) ::
            leBytes k (s.get f.name / 256 ^ i / 256)) := by
        rw [hrest]
        exact blit_blit_append s.mem s.p [_] _
      rw [← hrun]
      rfl

lemma leBytes_bmod (k : ℕ) (v : ℤ) : leBytes k (v.bmod (256 ^ k)) = leBytes k v := by
  refine leBytes_congr ?_
  have := Int.bmod_emod (x := v) (m := 256 ^ k)
  exact_mod_cast this

/-- **Packing a field**: its bytes go to the cursor, which moves behind them.  They are those of
whatever the name of the field means. -/
lemma run_packCode [Named ν] (f : Field ν) (s : Machine ν) :
    run (packCode f) s = ⟨.ok { s with
      mem := blit s.mem s.p (leBytes (fieldLen f.type) (s.get f.name))
      p := s.p + fieldLen f.type }, touched .write s.p (fieldLen f.type)⟩ := by
  have hbytes : ∀ k, run ((List.range' 0 k).map fun j => Stmt.storeByte f (8 * j)) s =
      ⟨.ok { s with mem := blit s.mem s.p (leBytes k (s.get f.name)), p := s.p + k },
        touched .write s.p k⟩ := by
    intro k
    rw [run_storeBytes, pow_zero, Int.ediv_one]
  have h16 : run (packInt16 f) s = ⟨.ok { s with
      mem := blit s.mem s.p (leBytes 2 (s.get f.name)), p := s.p + 2 },
        touched .write s.p 2⟩ := by
    rw [← leBytes_bmod]
    rfl
  have h32 : run (packInt32 f) s = ⟨.ok { s with
      mem := blit s.mem s.p (leBytes 4 (s.get f.name)), p := s.p + 4 },
        touched .write s.p 4⟩ := by
    rw [← leBytes_bmod]
    rfl
  rw [packCode]
  cases f.type with
  | int8 => exact hbytes 1
  | uint8 => exact hbytes 1
  | int16 => exact h16
  | uint16 => exact h16
  | int32 => exact h32
  | uint32 => exact h32
  | uint64 => exact hbytes 8

/-- The 64-bit value `UNPACK_INT64` puts together. -/
def decode64 (m : ℕ → UInt8) (p : ℕ) : ℤ :=
  let v := FieldType.uint64.convert (lowHalf m p).toInt
  let v := FieldType.uint64.convert (orInt v (highHalf m p))
  let v := FieldType.uint64.convert (orInt v (lowHalf m (p + 4)))
  FieldType.uint64.convert (orInt v (highHalf m (p + 4)))

/-- The value a field gets from the memory at the cursor. -/
def decodeField (ft : FieldType) (m : ℕ → UInt8) (p : ℕ) : ℤ :=
  match ft with
  | .int8 | .uint8 => ft.convert (charToInt (m p)).toInt
  | .int16 | .uint16 => ft.convert ((leValue (window m p 2)).bmod (2 ^ 16))
  | .int32 | .uint32 => ft.convert ((leValue (window m p 4)).bmod (2 ^ 32))
  | .uint64 => decode64 m p

/-- **Unpacking a field** that nothing hides: its member is set from the memory at the cursor, which
moves on. -/
lemma run_unpackCode [Named ν] (f : Field ν) {s : Machine ν}
    (hfree : s.scope (spell f.name) = none) :
    run (unpackCode f) s = ⟨.ok { s with
      member := Function.update s.member f.name (decodeField f.type s.mem s.p)
      p := s.p + fieldLen f.type }, touched .read s.p (fieldLen f.type)⟩ := by
  obtain ⟨name, type⟩ := f
  cases type with
  | int8 => simp only [unpackCode, unpackInt8, run, exec, Machine.assign, hfree]; rfl
  | uint8 => simp only [unpackCode, unpackInt8, run, exec, Machine.assign, hfree]; rfl
  | int16 => simp only [unpackCode, unpackInt16, run, exec, Machine.assign, hfree]; rfl
  | uint16 => simp only [unpackCode, unpackInt16, run, exec, Machine.assign, hfree]; rfl
  | int32 => simp only [unpackCode, unpackInt32, run, exec, Machine.assign, hfree]; rfl
  | uint32 => simp only [unpackCode, unpackInt32, run, exec, Machine.assign, hfree]; rfl
  | uint64 =>
      simp only [unpackCode, unpackInt64, run, exec, Machine.assign, Machine.get, hfree,
        Traced.mk_bind, Traced.pure_bind, Option.getD_none, Function.update_self,
        Function.update_idem, decodeField, decode64, fieldLen]
      rfl

/-- A field depends only on its own bytes. -/
lemma decodeField_congr {ft : FieldType} {m m' : ℕ → UInt8} {p p' : ℕ}
    (h : window m p (fieldLen ft) = window m' p' (fieldLen ft)) :
    decodeField ft m p = decodeField ft m' p' := by
  have hcell := eq_of_window_eq h
  cases ft with
  | int8 => rw [decodeField, decodeField, show m p = m' p' from hcell 0 (by decide)]
  | uint8 => rw [decodeField, decodeField, show m p = m' p' from hcell 0 (by decide)]
  | int16 => rw [decodeField, decodeField, show window m p 2 = window m' p' 2 from h]
  | uint16 => rw [decodeField, decodeField, show window m p 2 = window m' p' 2 from h]
  | int32 => rw [decodeField, decodeField, show window m p 4 = window m' p' 4 from h]
  | uint32 => rw [decodeField, decodeField, show window m p 4 = window m' p' 4 from h]
  | uint64 =>
      have h0 : m p = m' p' := hcell 0 (by decide)
      simp only [decodeField, decode64, lowHalf, highHalf, Nat.add_assoc]
      rw [h0, hcell 1 (by decide), hcell 2 (by decide), hcell 3 (by decide), hcell 4 (by decide),
        hcell (4 + 1) (by decide), hcell (4 + 2) (by decide), hcell (4 + 3) (by decide)]

/-! ## A whole body -/

/-- The bytes of a list of fields. -/
def encodeFields (fields : List (Field ν)) (member : ν → ℤ) : List UInt8 :=
  fields.flatMap fun f => leBytes (fieldLen f.type) (member f.name)

/-- The width of a list of fields. -/
def width (fields : List (Field ν)) : ℕ := (fields.map fun f => fieldLen f.type).sum

/-- The members after a list of fields has been taken from the memory at the cursor. -/
def decodeFields (m : ℕ → UInt8) : List (Field ν) → ℕ → (ν → ℤ) → ν → ℤ
  | [], _, member => member
  | f :: fields, p, member =>
      decodeFields m fields (p + fieldLen f.type)
        (Function.update member f.name (decodeField f.type m p))

omit [DecidableEq ν] in
@[simp] lemma length_encodeFields (fields : List (Field ν)) (member : ν → ℤ) :
    (encodeFields fields member).length = width fields := by
  induction fields with
  | nil => rfl
  | cons f fields ih =>
      simp only [encodeFields, width, List.flatMap_cons, List.length_append, length_leBytes,
        List.map_cons, List.sum_cons] at ih ⊢
      rw [ih]

/-- The packing code of a list of fields stores their bytes one behind the other. -/
lemma run_pack [Named ν] (fields : List (Field ν)) (s : Machine ν) :
    run (fields.flatMap packCode) s = ⟨.ok { s with
      mem := blit s.mem s.p (encodeFields fields s.get), p := s.p + width fields },
      touched .write s.p (width fields)⟩ := by
  induction fields generalizing s with
  | nil =>
      have hnil : blit s.mem s.p [] = s.mem := by
        funext j
        simp [blit]
      show _ = (⟨.ok { s with mem := blit s.mem s.p [], p := s.p + 0 }, []⟩ :
        Traced Access Empty (Machine ν))
      rw [hnil]
      rfl
  | cons f fields ih =>
      have happ := blit_blit_append s.mem s.p (leBytes (fieldLen f.type) (s.get f.name))
        (encodeFields fields s.get)
      rw [length_leBytes] at happ
      have hlog := touched_add .write s.p (fieldLen f.type) (width fields)
      rw [← Nat.cast_add] at hlog
      rw [List.flatMap_cons, run_append, run_packCode, Traced.mk_bind, ih, ← hlog]
      dsimp only
      rw [show width (f :: fields) = fieldLen f.type + width fields from List.sum_cons,
        ← Nat.add_assoc, show encodeFields (f :: fields) s.get =
          leBytes (fieldLen f.type) (s.get f.name) ++ encodeFields fields s.get from rfl, ← happ]
      rfl

/-- The unpacking code of a list of fields takes them from the same places, if nothing hides them.
-/
lemma run_unpack [Named ν] (fields : List (Field ν)) {s : Machine ν}
    (hfree : ∀ f ∈ fields, s.scope (spell f.name) = none) :
    run (fields.flatMap unpackCode) s = ⟨.ok { s with
      member := decodeFields s.mem fields s.p s.member, p := s.p + width fields },
      touched .read s.p (width fields)⟩ := by
  induction fields generalizing s with
  | nil => rfl
  | cons f fields ih =>
      have hlog := touched_add .read s.p (fieldLen f.type) (width fields)
      rw [← Nat.cast_add] at hlog
      rw [List.flatMap_cons, run_append, run_unpackCode f (hfree f List.mem_cons_self),
        Traced.mk_bind, ih (s := { s with
          member := Function.update s.member f.name (decodeField f.type s.mem s.p)
          p := s.p + fieldLen f.type }) fun g hg => hfree g (List.mem_cons_of_mem f hg), ← hlog]
      dsimp only
      rw [show width (f :: fields) = fieldLen f.type + width fields from List.sum_cons,
        ← Nat.add_assoc, decodeFields]

/-- A member that is not a field keeps its value. -/
lemma decodeFields_of_notMem {m : ℕ → UInt8} {fields : List (Field ν)} {k : ν}
    (hk : k ∉ fields.map Field.name) (p : ℕ) (member : ν → ℤ) :
    decodeFields m fields p member k = member k := by
  induction fields generalizing p member with
  | nil => rfl
  | cons f fields ih =>
      rw [List.map_cons, List.mem_cons, not_or] at hk
      rw [decodeFields, ih hk.2, Function.update_of_ne hk.1]

/-- The members depend only on the bytes of the fields. -/
lemma decodeFields_congr {m m' : ℕ → UInt8} {fields : List (Field ν)} {p p' : ℕ}
    (h : window m p (width fields) = window m' p' (width fields)) (member : ν → ℤ) :
    decodeFields m fields p member = decodeFields m' fields p' member := by
  induction fields generalizing p p' member with
  | nil => rfl
  | cons f fields ih =>
      rw [width, List.map_cons, List.sum_cons, window_append, window_append] at h
      obtain ⟨hhead, htail⟩ := List.append_inj h (by simp)
      rw [decodeFields, decodeFields, decodeField_congr hhead]
      exact ih htail _

/-- **Every field is taken from the bytes it was packed into**, whatever precedes or follows it. -/
lemma decodeFields_encodeFields {fields : List (Field ν)} (hnd : (fields.map Field.name).Nodup)
    {m : ℕ → UInt8} {p : ℕ} {member : ν → ℤ}
    (h : window m p (width fields) = encodeFields fields member) (member₀ : ν → ℤ)
    {f : Field ν} (hf : f ∈ fields) :
    decodeFields m fields p member₀ f.name =
      decodeField f.type (byteAt (leBytes (fieldLen f.type) (member f.name))) 0 := by
  induction fields generalizing p member₀ with
  | nil => exact absurd hf (by simp)
  | cons g fields ih =>
      rw [List.map_cons, List.nodup_cons] at hnd
      rw [width, List.map_cons, List.sum_cons, window_append] at h
      obtain ⟨hhead, htail⟩ := List.append_inj
        (h.trans (List.flatMap_cons (f := fun f : Field ν =>
          leBytes (fieldLen f.type) (member f.name)))) (by simp)
      rw [decodeFields]
      rcases List.mem_cons.mp hf with rfl | hf
      · rw [decodeFields_of_notMem hnd.1, Function.update_self]
        have hbytes := window_byteAt (leBytes (fieldLen f.type) (member f.name))
        rw [length_leBytes] at hbytes
        exact decodeField_congr (hhead.trans hbytes.symm)
      · exact ih hnd.2 htail _ hf

/-! ## Round trip of one field -/

/-- A plain `char` holds the low byte in two's complement. -/
lemma toInt_charToInt (v : ℤ) : (charToInt (UInt8.ofInt v)).toInt = v.bmod (2 ^ 8) := by
  rw [charToInt, BitVec.toInt_signExtend_of_le (by decide), BitVec.toInt_eq_toNat_bmod]
  show ((UInt8.ofInt v).toNat : ℤ).bmod (2 ^ 8) = _
  rw [toNat_ofInt]
  exact Int.emod_bmod v (2 ^ 8)

lemma bmod_leValue (k : ℕ) (v : ℤ) : (leValue (leBytes k v)).bmod (256 ^ k) = v.bmod (256 ^ k) := by
  rw [leValue_leBytes]
  exact_mod_cast Int.emod_bmod v (256 ^ k)

lemma window_leBytes (k : ℕ) (v : ℤ) : window (byteAt (leBytes k v)) 0 k = leBytes k v := by
  have h := window_byteAt (leBytes k v)
  rwa [length_leBytes] at h

/-- A conversion to the field's type does not care about multiples of its range. -/
lemma FieldType.convert_bmod (ft : FieldType) (v : ℤ) :
    ft.convert (v.bmod (256 ^ fieldLen ft)) = ft.convert v := by
  cases ft with
  | int8 => exact Int.bmod_bmod
  | int16 => exact Int.bmod_bmod
  | int32 => exact Int.bmod_bmod
  | uint8 => exact Int.bmod_emod
  | uint16 => exact Int.bmod_emod
  | uint32 => exact Int.bmod_emod
  | uint64 => exact Int.bmod_emod

/-- **A field of at most 32 bits is read back as packed**, its sign included. -/
lemma decodeField_leBytes {ft : FieldType} (hft : fieldLen ft ≤ 4) {v : ℤ} (hv : ft.InRange v) :
    decodeField ft (byteAt (leBytes (fieldLen ft) v)) 0 = v := by
  have h8 : (charToInt (byteAt (leBytes 1 v) 0)).toInt = v.bmod (2 ^ 8) := toInt_charToInt v
  have h16 : (leValue (window (byteAt (leBytes 2 v)) 0 2)).bmod (2 ^ 16) = v.bmod (2 ^ 16) := by
    rw [window_leBytes]
    exact bmod_leValue 2 v
  have h32 : (leValue (window (byteAt (leBytes 4 v)) 0 4)).bmod (2 ^ 32) = v.bmod (2 ^ 32) := by
    rw [window_leBytes]
    exact bmod_leValue 4 v
  have hconv := (ft.convert_bmod v).trans hv
  cases ft with
  | int8 =>
      rw [decodeField, fieldLen, h8]
      exact hconv
  | uint8 =>
      rw [decodeField, fieldLen, h8]
      exact hconv
  | int16 =>
      rw [decodeField, fieldLen, h16]
      exact hconv
  | uint16 =>
      rw [decodeField, fieldLen, h16]
      exact hconv
  | int32 =>
      rw [decodeField, fieldLen, h32]
      exact hconv
  | uint32 =>
      rw [decodeField, fieldLen, h32]
      exact hconv
  | uint64 => exact absurd hft (by decide)

/-! ## The emitted functions -/

/-- The members of a message, each with a value of its own type. -/
structure Record (body : Body ν) where
  member : ν → ℤ
  typed : ∀ f ∈ body.fields, f.type.InRange (member f.name)

variable [Named ν]

omit [DecidableEq ν] in
/-- **No member is hidden**: none is named like a parameter or a local of the emitted functions. -/
def Body.Clear (body : Body ν) : Prop := ∀ f ∈ body.fields, spell f.name ∉ ownNames

omit [DecidableEq ν] in
instance (body : Body ν) : Decidable body.Clear :=
  inferInstanceAs (Decidable (∀ f ∈ body.fields, spell f.name ∉ ownNames))

section Room

variable {body : Body ν} (hclear : body.Clear) (member : ν → ℤ) (mem : ℕ → UInt8) (p : ℕ)
  {avail : ℕ} (h : u32 (genCppBody body).fixedLen ≤ avail)

include hclear h

/-- Past the check of the room, `pack` stores the bytes of the fields at `p`. -/
lemma packTraced_of_room : packTraced body member mem (some p) avail =
    ⟨.ok (blit mem p (encodeFields body.fields member),
      toInt32 (u32 (genCppBody body).fixedLen)), touched .write p (width body.fields)⟩ := by
  set fl := u32 (genCppBody body).fixedLen with hfl
  have hrun := run_pack body.fields ⟨mem, p, member, packScope avail fl⟩
  -- every name means the member
  have hbytes : encodeFields body.fields
      (Machine.get ⟨mem, p, member, packScope avail fl⟩) = encodeFields body.fields member := by
    refine List.flatMap_congr fun f hf => ?_
    show leBytes _ ((packScope avail fl (spell f.name)).getD (member f.name)) = _
    rw [packScope_of_clear (hclear f hf), Option.getD_none]
  rw [hbytes] at hrun
  have hret : (packScope avail fl).get "_shift" + (packScope avail fl).get "_fl" = fl :=
    zero_add (fl : ℤ)
  simp only [packTraced]
  rw [if_neg (by omega), show (genCppBody body).pack = body.fields.flatMap packCode from rfl, hrun,
    Traced.mk_bind, ← hret]
  exact congrArg _ (List.append_nil _)

/-- Past the check of the room, `unpack` takes the fields from the bytes at `p`. -/
lemma unpackTraced_of_room : unpackTraced body member mem (some p) avail =
    ⟨.ok (decodeFields mem body.fields p member, toInt32 (u32 (genCppBody body).fixedLen)),
      touched .read p (width body.fields)⟩ := by
  set fl := u32 (genCppBody body).fixedLen with hfl
  have hrun := run_unpack body.fields (s := ⟨mem, p, member, unpackScope avail fl⟩)
    fun f hf => unpackScope_of_clear (hclear f hf) avail fl
  have hret : (unpackScope avail fl).get "_shift" + (unpackScope avail fl).get "_fl" = fl :=
    zero_add (fl : ℤ)
  simp only [unpackTraced]
  rw [if_neg (by omega), show (genCppBody body).unpack = body.fields.flatMap unpackCode from rfl,
    hrun, Traced.mk_bind, ← hret]
  exact congrArg _ (List.append_nil _)

/-- A field after `unpack` of what `pack` stored is decoded from its own bytes. -/
lemma unpack_pack (member₀ : ν → ℤ) {avail' : ℕ} (h' : u32 (genCppBody body).fixedLen ≤ avail')
    {f : Field ν} (hf : f ∈ body.fields) :
    (unpack body member₀ (pack body member mem (some p) avail).1 (some p) avail').1 f.name =
      decodeField f.type (byteAt (leBytes (fieldLen f.type) (member f.name))) 0 := by
  have hwin := window_blit_self mem p (encodeFields body.fields member)
  rw [length_encodeFields] at hwin
  rw [pack, packTraced_of_room hclear member mem p h, unpack,
    unpackTraced_of_room hclear member₀ _ p h']
  exact decodeFields_encodeFields body.nodup hwin member₀ hf

end Room

section Functions

variable {body : Body ν} (hfit : width body.fields < 2 ^ 31)

include hfit

omit [DecidableEq ν] [Named ν] in
lemma calSize_eq : calSize body = width body.fields := i32_of_lt hfit

omit [DecidableEq ν] [Named ν] in
lemma u32_fixedLen : u32 (genCppBody body).fixedLen = width body.fields :=
  u32_of_lt (Nat.lt_trans hfit (by decide))

omit [DecidableEq ν] [Named ν] in
lemma toInt32_fixedLen : toInt32 (u32 (genCppBody body).fixedLen) = width body.fields := by
  rw [u32_fixedLen hfit]
  exact toInt32_of_lt (by omega) (by omega)

/-- Without room or without a buffer, both return `-1`, touch nothing and change nothing. -/
lemma refuse_eq (member : ν → ℤ) (mem : ℕ → UInt8) {p : Option ℕ} {avail : ℕ}
    (h : p = none ∨ avail < width body.fields) :
    packTraced body member mem p avail = ⟨.ok (mem, -1), []⟩ ∧
      unpackTraced body member mem p avail = ⟨.ok (member, -1), []⟩ := by
  cases p with
  | none => exact ⟨rfl, rfl⟩
  | some p =>
      rcases h with h | h
      · exact absurd h (by simp)
      · simp only [packTraced, unpackTraced, u32_fixedLen hfit]
        rw [if_pos h, if_pos h]
        exact ⟨rfl, rfl⟩

variable (hclear : body.Clear)

include hclear

/-- With room, `pack` stores the bytes of the fields at `p`. -/
lemma packTraced_eq (member : ν → ℤ) (mem : ℕ → UInt8) (p : ℕ) {avail : ℕ}
    (havail : width body.fields ≤ avail) :
    packTraced body member mem (some p) avail =
      ⟨.ok (blit mem p (encodeFields body.fields member), (width body.fields : ℤ)),
        touched .write p (width body.fields)⟩ := by
  rw [packTraced_of_room hclear member mem p (by rwa [u32_fixedLen hfit]), toInt32_fixedLen hfit]

lemma pack_eq (member : ν → ℤ) (mem : ℕ → UInt8) (p : ℕ) {avail : ℕ}
    (havail : width body.fields ≤ avail) :
    pack body member mem (some p) avail =
      (blit mem p (encodeFields body.fields member), (width body.fields : ℤ)) := by
  rw [pack, packTraced_eq hfit hclear member mem p havail]
  rfl

/-- With room, `unpack` takes the fields from the bytes at `p`. -/
lemma unpackTraced_eq (member : ν → ℤ) (mem : ℕ → UInt8) (p : ℕ) {avail : ℕ}
    (havail : width body.fields ≤ avail) :
    unpackTraced body member mem (some p) avail =
      ⟨.ok (decodeFields mem body.fields p member, (width body.fields : ℤ)),
        touched .read p (width body.fields)⟩ := by
  rw [unpackTraced_of_room hclear member mem p (by rwa [u32_fixedLen hfit]), toInt32_fixedLen hfit]

lemma unpack_eq (member : ν → ℤ) (mem : ℕ → UInt8) (p : ℕ) {avail : ℕ}
    (havail : width body.fields ≤ avail) :
    unpack body member mem (some p) avail =
      (decodeFields mem body.fields p member, (width body.fields : ℤ)) := by
  rw [unpack, unpackTraced_eq hfit hclear member mem p havail]
  rfl

/-- **The generated codecs agree on the layout.**  For every body whose total width fits the `int`
that `cal_size` returns and whose members are not hidden: `cal_size` is the sum of the widths; with
room, `pack` writes exactly that many bytes at `p`, determined by the members, and `unpack` reads
exactly those, is determined by them and sets no other member; without room or without a buffer both
return `-1`, touch no byte and change nothing; and whatever fields precede or follow it, a field of
at most 32 bits is read back as packed. -/
theorem codec_layout :
    calSize body = ((body.fields.map fun f => fieldLen f.type).sum : ℕ) ∧
    (∀ r : Record body, ∃ bytes : List UInt8, (bytes.length : ℤ) = calSize body ∧
      ∀ mem (p avail : ℕ), calSize body ≤ avail →
        packTraced body r.member mem (some p) avail =
          ⟨.ok (blit mem p bytes, calSize body), touched .write p bytes.length⟩) ∧
    (∀ (member : ν → ℤ) (mem : ℕ → UInt8) (p avail : ℕ), calSize body ≤ avail →
      ∃ (n : ℕ) (member' : ν → ℤ), (n : ℤ) = calSize body ∧
        unpackTraced body member mem (some p) avail =
          ⟨.ok (member', calSize body), touched .read p n⟩ ∧
        (∀ k, k ∉ body.fields.map Field.name → member' k = member k) ∧
        ∀ mem', (∀ i < n, mem' (p + i) = mem (p + i)) →
          unpackTraced body member mem' (some p) avail =
            ⟨.ok (member', calSize body), touched .read p n⟩) ∧
    (∀ (member : ν → ℤ) (mem : ℕ → UInt8) (p : Option ℕ) (avail : ℕ),
      p = none ∨ avail < calSize body →
      packTraced body member mem p avail = ⟨.ok (mem, -1), []⟩ ∧
        unpackTraced body member mem p avail = ⟨.ok (member, -1), []⟩) ∧
    ∀ (r : Record body) (member₀ : ν → ℤ) (mem : ℕ → UInt8) (p avail avail' : ℕ),
      calSize body ≤ avail → calSize body ≤ avail' →
      ∀ f ∈ body.fields, fieldLen f.type ≤ 4 →
        (unpack body member₀ (pack body r.member mem (some p) avail).1 (some p) avail').1 f.name =
          r.member f.name := by
  rw [calSize_eq hfit]
  refine ⟨rfl, fun r => ⟨encodeFields body.fields r.member, by simp, ?_⟩, ?_, ?_, ?_⟩
  · intro mem p avail havail
    rw [length_encodeFields]
    exact packTraced_eq hfit hclear r.member mem p (by exact_mod_cast havail)
  · intro member mem p avail havail
    have havail' : width body.fields ≤ avail := by exact_mod_cast havail
    refine ⟨width body.fields, decodeFields mem body.fields p member, rfl,
      unpackTraced_eq hfit hclear member mem p havail',
      fun k hk => decodeFields_of_notMem hk p member, fun mem' hmem => ?_⟩
    rw [unpackTraced_eq hfit hclear member mem' p havail',
      decodeFields_congr (window_congr hmem) member]
  · intro member mem p avail h
    refine refuse_eq hfit member mem (h.imp_right fun h => ?_)
    exact_mod_cast h
  · intro r member₀ mem p avail avail' havail havail' f hf hlen
    have hroom : u32 (genCppBody body).fixedLen ≤ avail := by
      rw [u32_fixedLen hfit]
      exact_mod_cast havail
    have hroom' : u32 (genCppBody body).fixedLen ≤ avail' := by
      rw [u32_fixedLen hfit]
      exact_mod_cast havail'
    rw [unpack_pack hclear r.member mem p hroom member₀ hroom' hf]
    exact decodeField_leBytes hlen (r.typed f hf)

end Functions

/-- A signed field between two others. -/
def someBody : Body String where
  fields := [⟨"port", .uint16⟩, ⟨"delta", .int32⟩, ⟨"stamp", .uint64⟩]
  nodup := by decide

/-- A negative value comes back through a buffer of exactly the size announced. -/
theorem codec_layout_negative : calSize someBody = 14 ∧
    (unpack someBody (fun _ => 0) (pack someBody (fun k => if k = "delta" then -5 else 7)
      (fun _ => 0) (some 100) 14).1 (some 100) 14).1 "delta" = -5 := by
  have h := codec_layout (show width someBody.fields < 2 ^ 31 by decide) (by decide)
  refine ⟨h.1, h.2.2.2.2 ⟨fun k => if k = "delta" then -5 else 7, ?_⟩ (fun _ => 0) (fun _ => 0)
    100 14 14 (by decide) (by decide) ⟨"delta", .int32⟩ (by simp [someBody]) (by decide)⟩
  intro f hf
  simp only [someBody, List.mem_cons, List.not_mem_nil, or_false] at hf
  obtain rfl | rfl | rfl := hf <;> decide

/-- A field that is hidden by the parameter `avail`. -/
def hiddenBody : Body String where
  fields := [⟨"avail", .uint32⟩]
  nodup := by decide

/-- A body of `n` fields of 64 bits. -/
def wideBody (n : ℕ) : Body String where
  fields := (List.range n).map fun i => ⟨String.ofList (List.replicate i 'f'), .uint64⟩
  nodup := by
    rw [List.map_map]
    refine List.nodup_range.map fun i j hij => ?_
    simpa using congrArg String.length hij

lemma width_wideBody (n : ℕ) : width (wideBody n).fields = 8 * n := by
  simp [width, wideBody, Function.comp_def, fieldLen, Nat.mul_comm]

/-- A field named `avail` is packed from the parameter and unpacked into it, so that it does not
come back; and the total width of `2 ^ 28` fields of 64 bits is no `int`: `cal_size` returns a
negative number. -/
theorem codec_layout_fails :
    (calSize hiddenBody = 4 ∧
      (unpack hiddenBody (fun _ => 0) (pack hiddenBody (fun _ => 7) (fun _ => 0) (some 0) 4).1
        (some 0) 4).1 "avail" ≠ 7) ∧
    ∃ body : Body String,
      calSize body ≠ ((body.fields.map fun f => fieldLen f.type).sum : ℕ) := by
  refine ⟨⟨by decide, by decide⟩, wideBody (2 ^ 28), ?_⟩
  have hwidth := width_wideBody (2 ^ 28)
  have hneg : i32 (8 * 2 ^ 28) < 0 := by decide
  rw [← hwidth] at hneg
  generalize wideBody (2 ^ 28) = body at hneg
  have hsize : calSize body < 0 := hneg
  intro heq
  rw [heq] at hsize
  omega

end Codegen

end Axon
