import Axon.Core.ProtoMsg
import Axon.Library.LittleEndian
import Axon.Library.Traced

/-!
# The message generator

`proto_gen_cpp.py` writes a C++ class for every message of a protocol definition: a member per field
of the body, and the functions `cal_size`, `pack` and `unpack`.  `gen_cpp_body` computes the total
width and the two statement sequences from the templates `PACK_*` and `UNPACK_*`;
`proto_cc.cc.tmpl` puts them behind a check of the pointer and of the room.

The generator pastes the names of the members into the code as they are.  A member that is named
like a parameter or a local of the emitted function is hidden by it: the statements about the
member read and set that variable.

* **`Named`** : names with their spelling.
* **`Body`** : the fields of a message, each with its own name.
* **`genCppBody`** : what the generator computes, with the code as a list of statements.
* **`Scope`** : the variables of an emitted function, by their spelling.
* **`exec`**, **`run`** : what the statements do on a little-endian machine whose `char` is signed,
  with the bytes they read and write.
* **`calSize`**, **`pack`**, **`unpack`** : the emitted functions.

The variable-length type `VARSTR` is in `ProtoGenStr`.
-/

namespace Axon

open Library

namespace Codegen

/-- The fixed-width field types of `prot_basedef.py`. -/
inductive FieldType where
  | int8
  | int16
  | int32
  | uint8
  | uint16
  | uint32
  | uint64
deriving DecidableEq, Repr

/-- `g_field_len`. -/
def fieldLen : FieldType → ℕ
  | .int8 => 1
  | .int16 => 2
  | .int32 => 4
  | .uint8 => 1
  | .uint16 => 2
  | .uint32 => 4
  | .uint64 => 8

/-- `cpp_field`: the value a member of the field's C++ type holds after `v` has been assigned. -/
def FieldType.convert : FieldType → ℤ → ℤ
  | .int8, v => v.bmod (2 ^ 8)
  | .int16, v => v.bmod (2 ^ 16)
  | .int32, v => v.bmod (2 ^ 32)
  | .uint8, v => v % 2 ^ 8
  | .uint16, v => v % 2 ^ 16
  | .uint32, v => v % 2 ^ 32
  | .uint64, v => v % 2 ^ 64

/-- A value of the field's C++ type. -/
def FieldType.InRange (ft : FieldType) (v : ℤ) : Prop := ft.convert v = v

instance (ft : FieldType) (v : ℤ) : Decidable (ft.InRange v) :=
  inferInstanceAs (Decidable (ft.convert v = v))

/-- Names of members: the generator pastes their spelling into the code. -/
class Named (ν : Type) where
  spell : ν → String
  injective : Function.Injective spell

export Named (spell)

instance : Named String := ⟨id, Function.injective_id⟩

/-- One entry of a message body. -/
structure Field (ν : Type) where
  name : ν
  type : FieldType

/-- A message body: the members of a class have different names. -/
structure Body (ν : Type) where
  fields : List (Field ν)
  nodup : (fields.map Field.name).Nodup

/-- A statement of the emitted functions, about the member `f` and the cursor `p`. -/
inductive Stmt (ν : Type) where
  /-- `*p++ = (f >> shift) & 0xFF;` -/
  | storeByte (f : Field ν) (shift : ℕ)
  /-- `*(short*)p = f;` -/
  | storeShort (f : Field ν)
  /-- `*(int*)p = f;` -/
  | storeInt (f : Field ν)
  /-- `f = *p++;` -/
  | loadChar (f : Field ν)
  /-- `f = *(short*)p;` -/
  | loadShort (f : Field ν)
  /-- `f = *(int*)p;` -/
  | loadInt (f : Field ν)
  /-- `f = *p | (*(p+1) << 8);` -/
  | loadLow (f : Field ν)
  /-- `f |= *p | (*(p+1) << 8);` -/
  | orLow (f : Field ν)
  /-- `f |= *(p+2) << 16 | (*(p+3) << 24);` -/
  | orHigh (f : Field ν)
  /-- `p += n;` -/
  | advance (n : ℕ)

variable {ν : Type}

/-- `PACK_INT8`. -/
def packInt8 (f : Field ν) : List (Stmt ν) := [.storeByte f 0]

/-- `PACK_INT16`. -/
def packInt16 (f : Field ν) : List (Stmt ν) := [.storeShort f, .advance 2]

/-- `PACK_INT32`. -/
def packInt32 (f : Field ν) : List (Stmt ν) := [.storeInt f, .advance 4]

/-- `PACK_INT64`. -/
def packInt64 (f : Field ν) : List (Stmt ν) :=
  [.storeByte f 0, .storeByte f 8, .storeByte f 16, .storeByte f 24,
    .storeByte f 32, .storeByte f 40, .storeByte f 48, .storeByte f 56]

/-- `UNPACK_INT8`. -/
def unpackInt8 (f : Field ν) : List (Stmt ν) := [.loadChar f]

/-- `UNPACK_INT16`. -/
def unpackInt16 (f : Field ν) : List (Stmt ν) := [.loadShort f, .advance 2]

/-- `UNPACK_INT32`. -/
def unpackInt32 (f : Field ν) : List (Stmt ν) := [.loadInt f, .advance 4]

/-- `UNPACK_INT64`.  The second half is or-ed in where the first one already is. -/
def unpackInt64 (f : Field ν) : List (Stmt ν) :=
  [.loadLow f, .orHigh f, .advance 4, .orLow f, .orHigh f, .advance 4]

/-- `g_mp_code[ftype][0]`. -/
def packCode (f : Field ν) : List (Stmt ν) :=
  match f.type with
  | .int8 | .uint8 => packInt8 f
  | .int16 | .uint16 => packInt16 f
  | .int32 | .uint32 => packInt32 f
  | .uint64 => packInt64 f

/-- `g_mp_code[ftype][1]`. -/
def unpackCode (f : Field ν) : List (Stmt ν) :=
  match f.type with
  | .int8 | .uint8 => unpackInt8 f
  | .int16 | .uint16 => unpackInt16 f
  | .int32 | .uint32 => unpackInt32 f
  | .uint64 => unpackInt64 f

/-- What `gen_cpp_body` adds to the definition of a message. -/
structure CppBody (ν : Type) where
  fixedLen : ℕ
  pack : List (Stmt ν)
  unpack : List (Stmt ν)

/-- `gen_cpp_body`. -/
def genCppBody (body : Body ν) : CppBody ν where
  fixedLen := (body.fields.map fun f => fieldLen f.type).sum
  pack := body.fields.flatMap packCode
  unpack := body.fields.flatMap unpackCode

/-! ## What the emitted code does -/

/-- The value of an `int`, and of a `uint32_t`, that is given the number `z`. -/
def toInt32 (z : ℤ) : ℤ := z.bmod (2 ^ 32)

@[inherit_doc toInt32] def toUint32 (z : ℤ) : ℤ := z % 2 ^ 32

/-- The variables in scope, with their values. -/
abbrev Scope : Type := String → Option ℤ

/-- The type a variable of the emitted functions is declared with, if it is a number. -/
def varType (x : String) : FieldType := if x = "avail" ∨ x = "_fl" then .uint32 else .int32

/-- The value of a variable. -/
def Scope.get (vars : Scope) (x : String) : ℤ := (vars x).getD 0

/-- A declaration with an initial value, or an assignment. -/
def Scope.set (vars : Scope) (x : String) (v : ℤ) : Scope :=
  Function.update vars x (some ((varType x).convert v))

/-- The variables of `unpack` behind its check of the room. -/
def unpackScope (avail fl : ℕ) : Scope := fun x =>
  if x = "avail" then some avail
  else if x = "_fl" then some fl
  else if x = "_shift" then some 0
  else none

/-- The variables of `pack`.  `int ret;` is never given a value: 0 stands for what it may hold. -/
def packScope (avail fl : ℕ) : Scope := fun x =>
  if x = "ret" then some 0 else unpackScope avail fl x

/-- A byte of the buffer is touched. -/
inductive Access where
  | read (a : ℤ)
  | write (a : ℤ)
deriving DecidableEq, Repr

/-- The accesses to `n` bytes from `p` on. -/
def touched (kind : ℤ → Access) (p : ℤ) (n : ℕ) : List Access :=
  (List.range n).map fun i : ℕ => kind (p + i)

/-- The memory, the cursor `p`, the members of the message and the variables. -/
structure Machine (ν : Type) where
  mem : ℕ → UInt8
  p : ℕ
  member : ν → ℤ
  scope : Scope

variable [Named ν]

/-- What a name means to the emitted code: a variable in scope hides a member. -/
def Machine.get (s : Machine ν) (k : ν) : ℤ := (s.scope (spell k)).getD (s.member k)

variable [DecidableEq ν]

/-- An assignment to what a name means. -/
def Machine.assign (s : Machine ν) (f : Field ν) (v : ℤ) : Machine ν :=
  match s.scope (spell f.name) with
  | some _ => { s with scope := s.scope.set (spell f.name) v }
  | none => { s with member := Function.update s.member f.name (f.type.convert v) }

/-- `*p | (*(p+1) << 8)`, an `int`. -/
def lowHalf (m : ℕ → UInt8) (p : ℕ) : BitVec 32 :=
  charToInt (m p) ||| charToInt (m (p + 1)) <<< 8

/-- `*(p+2) << 16 | (*(p+3) << 24)`, an `int`. -/
def highHalf (m : ℕ → UInt8) (p : ℕ) : BitVec 32 :=
  charToInt (m (p + 2)) <<< 16 ||| charToInt (m (p + 3)) <<< 24

/-- `f |= e` for a 64-bit member and an `int`: the sign of the `int` is extended. -/
def orInt (v : ℤ) (e : BitVec 32) : ℤ := (BitVec.ofInt 64 v ||| e.signExtend 64).toNat

/-- One statement. -/
def exec (s : Machine ν) : Stmt ν → Traced Access Empty (Machine ν)
  | .storeByte f shift =>
      ⟨.ok { s with mem := blit s.mem s.p [UInt8.ofInt (s.get f.name / 2 ^ shift)], p := s.p + 1 },
        [.write s.p]⟩
  | .storeShort f =>
      ⟨.ok { s with mem := blit s.mem s.p (leBytes 2 ((s.get f.name).bmod (2 ^ 16))) },
        touched .write s.p 2⟩
  | .storeInt f =>
      ⟨.ok { s with mem := blit s.mem s.p (leBytes 4 ((s.get f.name).bmod (2 ^ 32))) },
        touched .write s.p 4⟩
  | .loadChar f =>
      ⟨.ok { s.assign f (charToInt (s.mem s.p)).toInt with p := s.p + 1 }, [.read s.p]⟩
  | .loadShort f =>
      ⟨.ok (s.assign f ((leValue (window s.mem s.p 2)).bmod (2 ^ 16))), touched .read s.p 2⟩
  | .loadInt f =>
      ⟨.ok (s.assign f ((leValue (window s.mem s.p 4)).bmod (2 ^ 32))), touched .read s.p 4⟩
  | .loadLow f => ⟨.ok (s.assign f (lowHalf s.mem s.p).toInt), touched .read s.p 2⟩
  | .orLow f =>
      ⟨.ok (s.assign f (orInt (s.get f.name) (lowHalf s.mem s.p))), touched .read s.p 2⟩
  | .orHigh f =>
      ⟨.ok (s.assign f (orInt (s.get f.name) (highHalf s.mem s.p))), touched .read (s.p + 2) 2⟩
  | .advance n => pure { s with p := s.p + n }

/-- A sequence of statements. -/
def run : List (Stmt ν) → Machine ν → Traced Access Empty (Machine ν)
  | [], s => pure s
  | c :: code, s => exec s c >>= run code

lemma run_append (code₁ code₂ : List (Stmt ν)) (s : Machine ν) :
    run (code₁ ++ code₂) s = run code₁ s >>= run code₂ := by
  induction code₁ generalizing s with
  | nil => exact (Traced.pure_bind s (run code₂)).symm
  | cons c code₁ ih =>
      rw [List.cons_append, run, run, Traced.bind_assoc]
      exact congrArg _ (funext ih)

/-- `cal_size()`. -/
def calSize (body : Body ν) : ℤ := i32 (genCppBody body).fixedLen

/-- `pack(p, avail)`: the memory afterwards and the return value, with the bytes touched. -/
def packTraced (body : Body ν) (member : ν → ℤ) (mem : ℕ → UInt8) (p : Option ℕ) (avail : ℕ) :
    Traced Access Empty ((ℕ → UInt8) × ℤ) :=
  let fl := u32 (genCppBody body).fixedLen
  match p with
  | none => pure (mem, -1)
  | some p =>
      if avail < fl then pure (mem, -1)
      else do
        let s ← run (genCppBody body).pack ⟨mem, p, member, packScope avail fl⟩
        pure (s.mem, toInt32 (s.scope.get "_shift" + s.scope.get "_fl"))

/-- `unpack(p, avail)`: the members afterwards and the return value, with the bytes touched. -/
def unpackTraced (body : Body ν) (member : ν → ℤ) (mem : ℕ → UInt8) (p : Option ℕ) (avail : ℕ) :
    Traced Access Empty ((ν → ℤ) × ℤ) :=
  let fl := u32 (genCppBody body).fixedLen
  match p with
  | none => pure (member, -1)
  | some p =>
      if avail < fl then pure (member, -1)
      else do
        let s ← run (genCppBody body).unpack ⟨mem, p, member, unpackScope avail fl⟩
        pure (s.member, toInt32 (s.scope.get "_shift" + s.scope.get "_fl"))

variable (body : Body ν) (member : ν → ℤ) (mem : ℕ → UInt8) (p : Option ℕ) (avail : ℕ)

/-- `pack(p, avail)`. -/
def pack : (ℕ → UInt8) × ℤ := (packTraced body member mem p avail).value

/-- `unpack(p, avail)`. -/
def unpack : (ν → ℤ) × ℤ := (unpackTraced body member mem p avail).value

end Codegen

end Axon
