import Axon.Codegen.CodecLayout
import Axon.Core.AxStringLaid
import Axon.Library.Tape

/-!
# The message generator, with string fields

`VARSTR` fields of `proto_gen_cpp.py`: a 16-bit length, the bytes of the string and a terminating
NUL.  The templates `PACK_VARSTR` and `UNPACK_VARSTR` are read with the semicolons they lack.

* **`Schema`** : the fields of a message of any type.
* **`Schema.genCppBody`** : what the generator computes, with the code as a list of statements.
* **`execWire`**, **`runWire`** : what the statements do.  A length that was read may move the
  cursor back, so that addresses are integers; the bytes the code reads and writes are logged, and
  `return -1` ends it.
* **`Schema.calSize`**, **`Schema.pack`**, **`Schema.unpack`** : the emitted functions.

A member of type `string_t` is known by its content.  `int` arithmetic wraps.  The local `f_slen`
is in scope from the code of the string `f` on, and hides a member of that name.
-/

namespace Axon

open Library

namespace Codegen

/-- The field types of `prot_basedef.py`. -/
inductive WireType where
  | fixed (ft : FieldType)
  | varstr
deriving DecidableEq, Repr

/-- `g_field_len`: of a string, the width of its length. -/
def wireLen : WireType → ℕ
  | .fixed ft => fieldLen ft
  | .varstr => 2

/-- One entry of a message body. -/
structure WireField (ν : Type) where
  name : ν
  type : WireType

/-- A message body: the members of a class have different names. -/
structure Schema (ν : Type) where
  fields : List (WireField ν)
  nodup : (fields.map WireField.name).Nodup

/-- A statement of the emitted functions, about the member `f` and the cursor `p`.  The statements
of a template for fixed-width fields are taken together. -/
inductive WireStmt (ν : Type) where
  /-- `PACK_INT8` to `PACK_INT64`. -/
  | packFixed (f : Field ν)
  /-- `UNPACK_INT8` to `UNPACK_INT64`. -/
  | unpackFixed (f : Field ν)
  /-- `int f_slen = f.len() + 1;` -/
  | setLen (f : ν)
  /-- `if (f_slen + 2 > avail - _shift) return -1;` -/
  | checkRoom (f : ν)
  /-- `*p++ = f_slen & 0xFF;` -/
  | storeLenLow (f : ν)
  /-- `*p++ = (f_slen >> 8) & 0xFF;` -/
  | storeLenHigh (f : ν)
  /-- `::strcpy(p, f.c_str());` -/
  | copy (f : ν)
  /-- `int f_slen = *p | (*(p+1) << 8);` -/
  | loadLen (f : ν)
  /-- `p += n;` -/
  | advance (n : ℕ)
  /-- `if (f_slen == 0 || f_slen + _shift > avail - _fl) return -1;` -/
  | checkLen (f : ν)
  /-- `*(p + f_slen - 1) = '\0';` -/
  | terminate (f : ν)
  /-- `f.assign(p);` -/
  | assign (f : ν)
  /-- `p += f_slen;` -/
  | advanceLen (f : ν)
  /-- `_shift += f_slen;` -/
  | addShift (f : ν)

variable {ν : Type}

/-- `PACK_VARSTR`. -/
def packVarstr (f : ν) : List (WireStmt ν) :=
  [.setLen f, .checkRoom f, .storeLenLow f, .storeLenHigh f, .copy f, .advanceLen f, .addShift f]

/-- `UNPACK_VARSTR`. -/
def unpackVarstr (f : ν) : List (WireStmt ν) :=
  [.loadLen f, .advance 2, .checkLen f, .terminate f, .assign f, .addShift f, .advanceLen f]

/-- `g_mp_code[ftype][0]`. -/
def packWire (f : WireField ν) : List (WireStmt ν) :=
  match f.type with
  | .fixed ft => [.packFixed ⟨f.name, ft⟩]
  | .varstr => packVarstr f.name

/-- `g_mp_code[ftype][1]`. -/
def unpackWire (f : WireField ν) : List (WireStmt ν) :=
  match f.type with
  | .fixed ft => [.unpackFixed ⟨f.name, ft⟩]
  | .varstr => unpackVarstr f.name

/-- What `gen_cpp_body` adds to the definition of a message; `var_len` as the members whose lengths
it adds up. -/
structure WireBody (ν : Type) where
  fixedLen : ℕ
  varLen : List ν
  pack : List (WireStmt ν)
  unpack : List (WireStmt ν)

/-- `gen_cpp_body`. -/
def Schema.genCppBody (body : Schema ν) : WireBody ν where
  fixedLen := (body.fields.map fun f => wireLen f.type).sum
  varLen := (body.fields.filter fun f => f.type = .varstr).map WireField.name
  pack := body.fields.flatMap packWire
  unpack := body.fields.flatMap unpackWire

/-! ## What the emitted code does -/

/-- The values of the members of a message. -/
structure Message (ν : Type) where
  member : ν → ℤ
  text : ν → CString

/-- The memory, the cursor `p`, the members and the variables. -/
structure Wire (ν : Type) where
  mem : ℤ → UInt8
  p : ℤ
  msg : Message ν
  scope : Scope

namespace Wire

variable (s : Wire ν)

/-- The variables of every emitted function, and the one of a string. -/
def avail : ℤ := s.scope.get "avail"

@[inherit_doc avail] def fl : ℤ := s.scope.get "_fl"

@[inherit_doc avail] def shift : ℤ := s.scope.get "_shift"

end Wire

/-- The local `f_slen`. -/
def slenVar [Named ν] (f : ν) : String := spell f ++ "_slen"

@[inherit_doc Wire.avail] def Wire.slen [Named ν] (s : Wire ν) (f : ν) : ℤ :=
  s.scope.get (slenVar f)

/-- The ways a function ends before its last line. -/
inductive Halt where
  /-- `return -1;` -/
  | rejected
  /-- A string without an end. -/
  | runaway
deriving DecidableEq, Repr

/-- The access to a byte of a block, where the block is. -/
def Access.shift (b : ℤ) : Access → Access
  | .read a => .read (b + a)
  | .write a => .write (b + a)

/-- The C string at `p`, if it ends within `fuel` bytes. -/
def readText (m : ℤ → UInt8) : ℕ → ℤ → Option CString
  | 0, _ => none
  | fuel + 1, p =>
      if h : m p = 0 then some Strings.emptyText
      else (readText m fuel (p + 1)).map fun s =>
        ⟨m p :: s.1, List.not_mem_cons_of_ne_of_not_mem (Ne.symm h) s.2⟩

/-- As far as a pointer can go. -/
def addressSpace : ℕ := 2 ^ 64

/-- `return -1;` -/
def reject {α : Type} : Traced Access Halt α := Traced.lift (.error .rejected)

variable [Named ν] [DecidableEq ν]

/-- One statement. -/
def execWire (s : Wire ν) : WireStmt ν → Traced Access Halt (Wire ν)
  | .packFixed f =>
      let block := run (packCode f) ⟨ahead s.mem s.p, 0, s.msg.member, s.scope⟩
      ⟨.ok { s with
        mem := replaceAhead s.mem s.p block.value.mem
        p := s.p + block.value.p }, block.log.map (Access.shift s.p)⟩
  | .unpackFixed f =>
      let block := run (unpackCode f) ⟨ahead s.mem s.p, 0, s.msg.member, s.scope⟩
      ⟨.ok { s with
        msg := { s.msg with member := block.value.member }
        p := s.p + block.value.p
        scope := block.value.scope }, block.log.map (Access.shift s.p)⟩
  | .setLen f =>
      pure { s with scope := s.scope.set (slenVar f) (u32 (s.msg.text f).1.length + 1) }
  | .checkRoom f =>
      if toUint32 (s.avail - s.shift) < toUint32 (s.slen f + 2) then reject else pure s
  | .storeLenLow f =>
      ⟨.ok { s with mem := put s.mem s.p [UInt8.ofInt (s.slen f)], p := s.p + 1 }, [.write s.p]⟩
  | .storeLenHigh f =>
      ⟨.ok { s with mem := put s.mem s.p [UInt8.ofInt (s.slen f / 2 ^ 8)], p := s.p + 1 },
        [.write s.p]⟩
  | .copy f =>
      ⟨.ok { s with mem := put s.mem s.p ((s.msg.text f).1 ++ [0]) },
        touched .write s.p ((s.msg.text f).1.length + 1)⟩
  | .loadLen f =>
      ⟨.ok { s with scope := s.scope.set (slenVar f) (lowHalf (ahead s.mem s.p) 0).toInt },
        touched .read s.p 2⟩
  | .advance n => pure { s with p := s.p + n }
  | .checkLen f =>
      if s.slen f = 0 ∨ toUint32 (s.avail - s.fl) < toUint32 (s.slen f + s.shift) then reject
      else pure s
  | .terminate f =>
      ⟨.ok { s with mem := put s.mem (s.p + s.slen f - 1) [0] }, [.write (s.p + s.slen f - 1)]⟩
  | .assign f =>
      match readText s.mem addressSpace s.p with
      | some t =>
          ⟨.ok { s with msg := { s.msg with text := Function.update s.msg.text f t } },
            touched .read s.p (t.1.length + 1)⟩
      | none => ⟨.error .runaway, touched .read s.p addressSpace⟩
  | .advanceLen f => pure { s with p := s.p + s.slen f }
  | .addShift f => pure { s with scope := s.scope.set "_shift" (s.shift + s.slen f) }

/-- A sequence of statements. -/
def runWire : List (WireStmt ν) → Wire ν → Traced Access Halt (Wire ν)
  | [], s => pure s
  | c :: code, s => execWire s c >>= runWire code

namespace Schema

variable (body : Schema ν) (msg : Message ν) (mem : ℤ → UInt8)

omit [Named ν] [DecidableEq ν] in
/-- `cal_size()`. -/
def calSize : ℤ :=
  toInt32 (body.genCppBody.fixedLen +
    (body.genCppBody.varLen.map fun f => u32 (msg.text f).1.length).sum)

/-- `pack(p, avail)`: the memory afterwards and the return value. -/
def pack (p : Option ℤ) (avail : ℕ) : Traced Access Halt ((ℤ → UInt8) × ℤ) :=
  let fl := u32 body.genCppBody.fixedLen
  match p with
  | none => reject
  | some p =>
      if avail < fl then reject
      else do
        let s ← runWire body.genCppBody.pack ⟨mem, p, msg, packScope avail fl⟩
        pure (s.mem, toInt32 (s.shift + s.fl))

/-- `unpack(p, avail)`: the members afterwards and the return value. -/
def unpack (p : Option ℤ) (avail : ℕ) : Traced Access Halt (Message ν × ℤ) :=
  let fl := u32 body.genCppBody.fixedLen
  match p with
  | none => reject
  | some p =>
      if avail < fl then reject
      else do
        let s ← runWire body.genCppBody.unpack ⟨mem, p, msg, unpackScope avail fl⟩
        pure (s.msg, toInt32 (s.shift + s.fl))

end Schema

/-- The value one of these functions has returned; `none` when it did not return. -/
def returned {α : Type} (x : Traced Access Halt (α × ℤ)) : Option ℤ :=
  match x.result with
  | .ok (_, ret) => some ret
  | .error .rejected => some (-1)
  | .error .runaway => none

end Codegen

end Axon
