import Axon.Codegen.ProtoGenStr
import Mathlib.Algebra.Order.BigOperators.Group.List
import Mathlib.Data.Finset.Card

/-!
# The bytes `pack` writes

The length of a message is computed in three places: the fixed lengths, the string lengths
`cal_size` adds, and `_shift`, which counts a terminating NUL for every string.

* **`Schema.Clear`**, **`Visible`** : no member is hidden by a variable of the emitted functions.
* **`encodeWire`** : the bytes of a field, and **`Wire.packed`** : what its statements do where they
  find room.
* **`runWire_pack`** : `pack` writes as many bytes as the fields take, one behind the other, and
  those of the fields if none is hidden; or it returns -1.
* **`SizesAgree`**, **`sizes_disagree`** : `cal_size` and `pack` agree on no message with a string.
-/

namespace Axon

open Library

namespace Codegen

variable {ν : Type}

/-! ## One field -/

/-- The length of a string on the wire, with the NUL. -/
def storedLen (t : CString) : ℕ := t.1.length + 1

/-- The bytes of a field. -/
def encodeWire (msg : Message ν) (f : WireField ν) : List UInt8 :=
  match f.type with
  | .fixed ft => leBytes (fieldLen ft) (msg.member f.name)
  | .varstr => leBytes 2 (storedLen (msg.text f.name)) ++ ((msg.text f.name).1 ++ [0])

/-- What a field adds to `_shift`. -/
def shiftOf (msg : Message ν) (f : WireField ν) : ℕ :=
  match f.type with
  | .fixed _ => 0
  | .varstr => storedLen (msg.text f.name)

/-- The strings of the fields are shorter than 65535 bytes. -/
def Short (msg : Message ν) (fields : List (WireField ν)) : Prop :=
  ∀ f ∈ fields, f.type = .varstr → (msg.text f.name).1.length < 65535

@[simp] lemma length_encodeWire (msg : Message ν) (f : WireField ν) :
    (encodeWire msg f).length = wireLen f.type + shiftOf msg f := by
  rw [encodeWire, shiftOf]
  cases f.type with
  | fixed ft => simp [wireLen]
  | varstr => simp [wireLen, storedLen]

lemma toInt32_congr {x y : ℤ} (h : x % 2 ^ 32 = y % 2 ^ 32) : toInt32 x = toInt32 y :=
  calc toInt32 x = (x % (2 ^ 32 : ℕ)).bmod (2 ^ 32) := (Int.emod_bmod x (2 ^ 32)).symm
    _ = (y % (2 ^ 32 : ℕ)).bmod (2 ^ 32) := congrArg (Int.bmod · (2 ^ 32)) (by exact_mod_cast h)
    _ = toInt32 y := Int.emod_bmod y (2 ^ 32)

lemma reject_bind {α β : Type} (f : α → Traced Access Halt β) :
    ((reject : Traced Access Halt α) >>= f) = reject := rfl

/-- The accesses to a block, where the block is. -/
lemma map_shift_touched (kind : ℤ → Access) (hkind : kind = .read ∨ kind = .write) (b : ℤ)
    (n : ℕ) : (touched kind ((0 : ℕ) : ℤ) n).map (Access.shift b) = touched kind b n := by
  rw [touched, touched, List.map_map]
  refine List.map_congr_left fun i _ => ?_
  rcases hkind with rfl | rfl <;> simp [Access.shift]

/-! ## Variables -/

namespace Scope

variable (vars : Scope) (x : String) (v : ℤ)

@[simp] lemma get_set_self : (vars.set x v).get x = (varType x).convert v := by
  rw [get, set, Function.update_self, Option.getD_some]

variable {x} in
lemma get_set_of_ne {y : String} (h : y ≠ x) : (vars.set x v).get y = vars.get y := by
  rw [get, set, Function.update_of_ne h, get]

end Scope

variable [Named ν]

/-- The variable of a string is none of the others. -/
lemma slenVar_ne (f : ν) {x : String} (hx : x ∈ ownNames) : x ≠ slenVar f := by
  have hlast : ∀ x ∈ ownNames, x.toList.getLast? ≠ some 'n' := by decide
  rintro rfl
  refine hlast _ hx ?_
  rw [slenVar, String.toList_append, List.getLast?_append]
  rfl

/-- The length of a string, as its variable holds it. -/
lemma Scope.get_slen (vars : Scope) (f : ν) (v : ℤ) :
    (vars.set (slenVar f) v).get (slenVar f) = toInt32 v := by
  have hint : varType (slenVar f) = .int32 :=
    if_neg (not_or.mpr ⟨(slenVar_ne f (by decide)).symm, (slenVar_ne f (by decide)).symm⟩)
  rw [get_set_self, hint]
  rfl

section Declared

variable (vars : Scope) (f : ν) (v : ℤ)

@[simp] lemma Scope.get_avail : (vars.set (slenVar f) v).get "avail" = vars.get "avail" :=
  get_set_of_ne vars v (slenVar_ne f (by decide))

@[simp] lemma Scope.get_fl : (vars.set (slenVar f) v).get "_fl" = vars.get "_fl" :=
  get_set_of_ne vars v (slenVar_ne f (by decide))

@[simp] lemma Scope.get_shift : (vars.set (slenVar f) v).get "_shift" = vars.get "_shift" :=
  get_set_of_ne vars v (slenVar_ne f (by decide))

/-- Setting `_shift` leaves the length alone. -/
lemma Scope.get_slen_set (w : ℤ) :
    ((vars.set (slenVar f) v).set "_shift" w).get (slenVar f) = toInt32 v := by
  rw [get_set_of_ne _ w (slenVar_ne f (by decide)).symm, get_slen]

end Declared

/-- **None of the fields is hidden**, neither by a variable in scope nor by one that comes into
scope with them. -/
structure Visible (vars : Scope) (fields : List (WireField ν)) : Prop where
  now : ∀ f ∈ fields, vars (spell f.name) = none
  own : ∀ f ∈ fields, spell f.name ∉ ownNames
  later : ∀ f ∈ fields, ∀ g ∈ fields, g.type = .varstr → spell f.name ≠ slenVar g.name

namespace Visible

variable {vars : Scope} {f : WireField ν} {fields : List (WireField ν)}

lemma tail (h : Visible vars (f :: fields)) : Visible vars fields where
  now g hg := h.now g (List.mem_cons_of_mem f hg)
  own g hg := h.own g (List.mem_cons_of_mem f hg)
  later g hg k hk := h.later g (List.mem_cons_of_mem f hg) k (List.mem_cons_of_mem f hk)

/-- Also behind a string, whose variable has come into scope. -/
lemma string (h : Visible vars (f :: fields)) (hf : f.type = .varstr) (v w : ℤ) :
    Visible ((vars.set (slenVar f.name) v).set "_shift" w) fields where
  now g hg := by
    have hmem := List.mem_cons_of_mem f hg
    have hshift : spell g.name ≠ "_shift" := fun heq => h.own g hmem (heq ▸ by decide)
    rw [Scope.set, Function.update_of_ne hshift, Scope.set,
      Function.update_of_ne (h.later g hmem f List.mem_cons_self hf)]
    exact h.now g hmem
  own := h.tail.own
  later := h.tail.later

end Visible

/-- **No member is hidden**: none is named like a parameter or a local of the emitted functions. -/
def Schema.Clear (body : Schema ν) : Prop :=
  (∀ f ∈ body.fields, spell f.name ∉ ownNames) ∧
    ∀ f ∈ body.fields, ∀ g ∈ body.fields, g.type = .varstr → spell f.name ≠ slenVar g.name

instance (body : Schema ν) : Decidable body.Clear := inferInstanceAs (Decidable (_ ∧ _))

lemma Schema.Clear.pack {body : Schema ν} (h : body.Clear) (avail fl : ℕ) :
    Visible (packScope avail fl) body.fields :=
  ⟨fun f hf => packScope_of_clear (h.1 f hf) avail fl, h.1, h.2⟩

lemma Schema.Clear.unpack {body : Schema ν} (h : body.Clear) (avail fl : ℕ) :
    Visible (unpackScope avail fl) body.fields :=
  ⟨fun f hf => unpackScope_of_clear (h.1 f hf) avail fl, h.1, h.2⟩

/-- The message as the statements of `pack` see it. -/
def Wire.seen (s : Wire ν) : Message ν where
  member := fun k => (s.scope (spell k)).getD (s.msg.member k)
  text := s.msg.text

@[simp] lemma shiftOf_seen (s : Wire ν) (f : WireField ν) : shiftOf s.seen f = shiftOf s.msg f :=
  rfl

/-- What is not hidden is seen. -/
lemma encodeWire_seen {s : Wire ν} {f : WireField ν} (h : s.scope (spell f.name) = none) :
    encodeWire s.seen f = encodeWire s.msg f := by
  rw [encodeWire, encodeWire, Wire.seen]
  dsimp only
  rw [h, Option.getD_none]

/-- The machine after a field has been packed. -/
def Wire.packed (s : Wire ν) (f : WireField ν) : Wire ν :=
  match f.type with
  | .fixed _ =>
      { s with
        mem := put s.mem s.p (encodeWire s.seen f)
        p := s.p + (encodeWire s.seen f).length }
  | .varstr =>
      { s with
        mem := put s.mem s.p (encodeWire s.seen f)
        p := s.p + (encodeWire s.seen f).length
        scope := (s.scope.set (slenVar f.name) (u32 (s.msg.text f.name).1.length + 1)).set "_shift"
          (s.shift + storedLen (s.msg.text f.name)) }

/-- The check of the room for a field passes. -/
def HasRoom (s : Wire ν) (f : WireField ν) : Prop :=
  f.type = .varstr → storedLen (s.msg.text f.name) + 2 ≤ toUint32 (s.avail - s.shift)

section Packed

variable (s : Wire ν) (f : WireField ν)

@[simp] lemma packed_msg : (s.packed f).msg = s.msg := by
  rw [Wire.packed]
  cases f.type <;> rfl

@[simp] lemma packed_mem : (s.packed f).mem = put s.mem s.p (encodeWire s.seen f) := by
  rw [Wire.packed]
  cases f.type <;> rfl

@[simp] lemma packed_p : (s.packed f).p = s.p + (wireLen f.type + shiftOf s.msg f : ℕ) := by
  rw [← shiftOf_seen, ← length_encodeWire, Wire.packed]
  cases f.type <;> rfl

/-- The parameter and the total of the fixed lengths are left alone. -/
lemma packed_get {x : String} (hx : x ∈ ownNames) (hne : x ≠ "_shift") :
    (s.packed f).scope.get x = s.scope.get x := by
  rw [Wire.packed]
  cases f.type with
  | fixed ft => rfl
  | varstr =>
      dsimp only
      rw [Scope.get_set_of_ne _ _ hne, Scope.get_set_of_ne _ _ (slenVar_ne f.name hx)]

@[simp] lemma packed_avail : (s.packed f).avail = s.avail :=
  packed_get s f (by decide) (by decide)

@[simp] lemma packed_fl : (s.packed f).fl = s.fl := packed_get s f (by decide) (by decide)

lemma packed_shift {S : ℕ} (hshift : s.shift = toInt32 S) :
    (s.packed f).shift = toInt32 (S + shiftOf s.msg f : ℕ) := by
  rw [Wire.packed, shiftOf]
  cases f.type with
  | fixed ft => exact hshift
  | varstr =>
      rw [Wire.shift, Scope.get_set_self, hshift]
      show toInt32 _ = _
      rw [toInt32_add, Nat.cast_add]

variable {s f} in
/-- The fields behind one that has been packed are visible. -/
lemma packed_visible {fields : List (WireField ν)} (h : Visible s.scope (f :: fields)) :
    Visible (s.packed f).scope fields := by
  rw [Wire.packed]
  cases hf : f.type with
  | fixed ft => exact h.tail
  | varstr => exact h.string hf _ _

end Packed

variable [DecidableEq ν]

lemma runWire_append (code₁ code₂ : List (WireStmt ν)) (s : Wire ν) :
    runWire (code₁ ++ code₂) s = runWire code₁ s >>= runWire code₂ := by
  induction code₁ generalizing s with
  | nil => exact (Traced.pure_bind s (runWire code₂)).symm
  | cons c code₁ ih =>
      rw [List.cons_append, runWire, runWire, Traced.bind_assoc]
      exact congrArg _ (funext ih)

/-- The two bytes of a length. -/
lemma put_len (m : ℤ → UInt8) (p : ℤ) (n : ℤ) (bs : List UInt8) :
    put (put (put m p [UInt8.ofInt n]) (p + 1) [UInt8.ofInt (n / 2 ^ 8)]) (p + 1 + 1) bs =
      put m p (leBytes 2 n ++ bs) := by
  have hlow := put_append m p [UInt8.ofInt n] [UInt8.ofInt (n / 2 ^ 8)]
  have hrest := put_append m p (leBytes 2 n) bs
  rw [length_leBytes] at hrest
  rw [← hrest, add_assoc]
  congr 1

/-- The length of a short string, as an `int`. -/
lemma toInt32_storedLen {t : CString} (h : t.1.length < 65535) :
    toInt32 (u32 t.1.length + 1) = storedLen t := by
  rw [u32_of_lt (by omega), storedLen, toInt32_of_lt (by omega) (by omega)]
  rfl

/-- **Packing a field**: its bytes go to the cursor, which moves behind them. -/
lemma runWire_packWire {s : Wire ν} {f : WireField ν}
    (hshort : f.type = .varstr → (s.msg.text f.name).1.length < 65535)
    (hroom : HasRoom s f) :
    runWire (packWire f) s =
      ⟨.ok (s.packed f), touched .write s.p (encodeWire s.seen f).length⟩ := by
  obtain ⟨name, type⟩ := f
  cases type with
  | fixed ft =>
      have hrun := run_packCode ⟨name, ft⟩ ⟨ahead s.mem s.p, 0, s.msg.member, s.scope⟩
      have hlog := map_shift_touched .write (Or.inr rfl) s.p (fieldLen ft)
      simp only [packWire, runWire, execWire, hrun, Traced.value, Nat.zero_add, replaceAhead_blit,
        hlog]
      rw [Traced.mk_bind]
      simp only [Wire.packed, encodeWire, length_leBytes]
      exact congrArg _ (List.append_nil _)
  | varstr =>
      have hlt : (s.msg.text name).1.length < 65535 := hshort rfl
      have hlen := toInt32_storedLen hlt
      have hcheck : ¬ toUint32 (s.scope.get "avail" - s.scope.get "_shift") <
          toUint32 ((storedLen (s.msg.text name) : ℤ) + 2) := by
        have hsmall : storedLen (s.msg.text name) + 2 < 2 ^ 32 := by
          rw [storedLen]
          omega
        have huint : toUint32 ((storedLen (s.msg.text name) : ℤ) + 2) =
            storedLen (s.msg.text name) + 2 := toUint32_of_lt (by omega) (by omega)
        rw [huint]
        exact not_lt.mpr (hroom rfl)
      have hlog : touched .write s.p (2 + (storedLen (s.msg.text name))) = .write s.p ::
          .write (s.p + 1) :: touched .write (s.p + 1 + 1) (storedLen (s.msg.text name)) := by
        rw [touched_add, add_assoc]
        simp [touched, List.range_succ]
      have hsize : (leBytes 2 (storedLen (s.msg.text name)) ++
          ((s.msg.text name).1 ++ [0])).length = 2 + storedLen (s.msg.text name) := by
        simp [storedLen]
      have hp : s.p + 1 + 1 + (storedLen (s.msg.text name) : ℤ) =
          s.p + (2 + storedLen (s.msg.text name) : ℕ) := by omega
      simp only [packWire, packVarstr, runWire, execWire, Traced.pure_bind, Wire.avail, Wire.shift,
        Wire.slen, Scope.get_slen, Scope.get_avail, Scope.get_shift, hlen, if_neg hcheck,
        Traced.mk_bind, put_len, Wire.packed, encodeWire, Wire.seen]
      rw [hsize, hp, hlog]
      exact congrArg _ (congrArg (List.cons _) (congrArg (List.cons _) (List.append_nil _)))

/-- Without room nothing is written. -/
lemma runWire_packWire_reject {s : Wire ν} {f : WireField ν}
    (hshort : f.type = .varstr → (s.msg.text f.name).1.length < 65535)
    (hroom : ¬ HasRoom s f) : runWire (packWire f) s = reject := by
  obtain ⟨name, type⟩ := f
  cases type with
  | fixed ft => exact absurd (fun h => absurd h (by simp)) hroom
  | varstr =>
      have hlt : (s.msg.text name).1.length < 65535 := hshort rfl
      have hlen := toInt32_storedLen hlt
      have huint : toUint32 ((storedLen (s.msg.text name) : ℤ) + 2) =
          storedLen (s.msg.text name) + 2 := by
        refine toUint32_of_lt (by omega) ?_
        rw [storedLen]
        omega
      have hcheck : toUint32 (s.scope.get "avail" - s.scope.get "_shift") <
          toUint32 ((storedLen (s.msg.text name) : ℤ) + 2) := by
        rw [huint]
        exact not_le.mp fun hle => hroom fun _ => hle
      simp only [packWire, packVarstr, runWire, execWire, Traced.pure_bind, Wire.avail, Wire.shift,
        Wire.slen, Scope.get_slen, Scope.get_avail, Scope.get_shift, hlen, if_pos hcheck]
      rfl

/-! ## A whole body -/

omit [Named ν] [DecidableEq ν] in
/-- The bytes of a list of fields. -/
def encodeWires (msg : Message ν) (fields : List (WireField ν)) : List UInt8 :=
  fields.flatMap (encodeWire msg)

omit [Named ν] [DecidableEq ν] in
/-- The fixed lengths of a list of fields, and what they add to `_shift`. -/
def widths (fields : List (WireField ν)) : ℕ := (fields.map fun f => wireLen f.type).sum

omit [Named ν] [DecidableEq ν] in
@[inherit_doc widths] def shifts (msg : Message ν) (fields : List (WireField ν)) : ℕ :=
  (fields.map (shiftOf msg)).sum

omit [Named ν] [DecidableEq ν] in
@[simp] lemma length_encodeWires (msg : Message ν) (fields : List (WireField ν)) :
    (encodeWires msg fields).length = widths fields + shifts msg fields := by
  induction fields with
  | nil => rfl
  | cons f fields ih =>
      simp only [encodeWires, widths, shifts, List.flatMap_cons, List.length_append,
        length_encodeWire, List.map_cons, List.sum_cons] at ih ⊢
      omega

/-- A difference is told by its remainder. -/
lemma toUint32_sub_toInt32 (x y : ℤ) : toUint32 (x - toInt32 y) = toUint32 (x - y) := by
  rw [toUint32, toUint32, toInt32, Int.sub_emod, Int.sub_emod x y]
  congr 2
  exact_mod_cast Int.bmod_emod (x := y) (m := 2 ^ 32)

lemma toUint32_toInt32_add (x y : ℤ) : toUint32 (toInt32 x + y) = toUint32 (x + y) := by
  rw [toUint32, toUint32, toInt32, Int.add_emod, Int.add_emod x y]
  congr 2
  exact_mod_cast Int.bmod_emod (x := x) (m := 2 ^ 32)

omit [Named ν] [DecidableEq ν] in
/-- A string that fits behind what there is has room. -/
lemma hasRoom {avail S : ℕ} {s : Wire ν} {f : WireField ν} (havail : avail < 2 ^ 32)
    (hav : s.avail = avail) (hshift : s.shift = toInt32 S)
    (hfits : S + wireLen f.type + shiftOf s.msg f ≤ avail) : HasRoom s f := by
  intro hf
  rw [hav, hshift, toUint32_sub_toInt32, toUint32_of_lt (by omega) (by omega)]
  simp only [hf, wireLen, shiftOf] at hfits
  omega

/-- **Packing a list of fields**: as many bytes as they take go to the cursor one behind the other,
and they are those of the fields if none is hidden; unless the check of the room fails, which it
does not when they fit. -/
lemma runWire_pack {avail S : ℕ} {fields : List (WireField ν)} {s : Wire ν}
    (hshort : Short s.msg fields) (havail : avail < 2 ^ 32) (hav : s.avail = avail)
    (hshift : s.shift = toInt32 S) :
    ((runWire (fields.flatMap packWire) s).result = .error .rejected ∧
        avail < S + widths fields + shifts s.msg fields) ∨
      ∃ s' bs, bs.length = widths fields + shifts s.msg fields ∧
        runWire (fields.flatMap packWire) s = ⟨.ok s', touched .write s.p bs.length⟩ ∧
        s'.mem = put s.mem s.p bs ∧ s'.fl = s.fl ∧
        s'.shift = toInt32 (S + shifts s.msg fields : ℕ) ∧
        (Visible s.scope fields → bs = encodeWires s.msg fields) := by
  induction fields generalizing s S with
  | nil => exact Or.inr ⟨s, [], rfl, rfl, (put_nil _ _).symm, rfl, hshift, fun _ => rfl⟩
  | cons f fields ih =>
      have hf := hshort f List.mem_cons_self
      have hcons : widths (f :: fields) = wireLen f.type + widths fields ∧
          shifts s.msg (f :: fields) = shiftOf s.msg f + shifts s.msg fields :=
        ⟨List.sum_cons, List.sum_cons⟩
      rw [List.flatMap_cons, runWire_append]
      by_cases hroom : HasRoom s f
      · rw [runWire_packWire hf hroom, Traced.mk_bind]
        have hrest : Short (s.packed f).msg fields := by
          rw [packed_msg]
          exact fun g hg => hshort g (List.mem_cons_of_mem f hg)
        rcases ih hrest (by rwa [packed_avail]) (packed_shift s f hshift) with
          ⟨hres, hlt⟩ | ⟨s', bs, hlen, hrun, hmem, hfl, hshift', hbytes⟩
        · rw [packed_msg] at hlt
          exact Or.inl ⟨hres, by omega⟩
        · have hhead := length_encodeWire s.seen f
          rw [shiftOf_seen] at hhead
          rw [packed_msg] at hlen hshift' hbytes
          rw [packed_mem, packed_p, ← hhead] at hmem
          rw [packed_p, ← hhead] at hrun
          refine Or.inr ⟨s', encodeWire s.seen f ++ bs, ?_, ?_, ?_, ?_, ?_, fun hvis => ?_⟩
          · rw [List.length_append, hlen]
            omega
          · rw [hrun, ← touched_add, ← List.length_append]
          · rw [hmem, put_append]
          · rw [hfl, packed_fl]
          · rw [hshift', hcons.2, Nat.add_assoc]
          · rw [hbytes (packed_visible hvis), encodeWire_seen (hvis.now f List.mem_cons_self)]
            rfl
      · rw [runWire_packWire_reject hf hroom]
        refine Or.inl ⟨rfl, ?_⟩
        by_contra hfits
        exact hroom (hasRoom havail hav hshift (by omega))

/-! ## `cal_size` and `pack` -/

/-- The bytes written. -/
def written (log : List Access) : Finset ℤ :=
  (log.filterMap fun w => match w with
    | .write a => some a
    | .read _ => none).toFinset

lemma card_written (p : ℤ) (n : ℕ) : (written (touched .write p n)).card = n := by
  have hfilter : (touched .write p n).filterMap (fun w => match w with
      | .write a => some a
      | .read _ => none) = (List.range n).map fun i : ℕ => p + i := by
    rw [touched, List.filterMap_map, ← List.filterMap_eq_map]
    rfl
  rw [written, hfilter, List.toFinset_card_of_nodup, List.length_map, List.length_range]
  exact List.nodup_range.map fun i j hij => by simpa using hij

/-- **`cal_size` and `pack` agree** on a message: `pack` returns -1, or writes and returns as many
bytes as `cal_size` says, none of them at or behind `p + avail`; and it does not return -1 when
`avail` is what `cal_size` says. -/
structure SizesAgree (body : Schema ν) (msg : Message ν) : Prop where
  size : ∀ mem p avail, avail < 2 ^ 32 → returned (body.pack msg mem (some p) avail) ≠ some (-1) →
    returned (body.pack msg mem (some p) avail) = some (body.calSize msg) ∧
      ((written (body.pack msg mem (some p) avail).log).card : ℤ) = body.calSize msg
  enough : ∀ mem p,
    returned (body.pack msg mem (some p) (toUint32 (body.calSize msg)).toNat) ≠ some (-1)
  inside : ∀ mem p avail, avail < 2 ^ 32 →
    returned (body.pack msg mem (some p) avail) = some (-1) ∨
      ∀ a ∈ written (body.pack msg mem (some p) avail).log, a < p + avail

/-- **The emitted `pack`** returns -1, or writes as many bytes as the fields take, those of the
fields if none is hidden. -/
lemma pack_cases {body : Schema ν} {msg : Message ν} (hshort : Short msg body.fields)
    (mem : ℤ → UInt8) (p : ℤ) {avail : ℕ} (havail : avail < 2 ^ 32) :
    ((body.pack msg mem (some p) avail).result = .error .rejected ∧
        avail < widths body.fields + shifts msg body.fields) ∨
      ∃ bs, bs.length = widths body.fields + shifts msg body.fields ∧
        body.pack msg mem (some p) avail =
          ⟨.ok (put mem p bs, toInt32 (widths body.fields + shifts msg body.fields : ℕ)),
            touched .write p bs.length⟩ ∧
        (body.Clear → bs = encodeWires msg body.fields) := by
  have hfl : u32 body.genCppBody.fixedLen ≤ widths body.fields := Nat.mod_le _ _
  simp only [Schema.pack]
  split_ifs with hlt
  · exact Or.inl ⟨rfl, by omega⟩
  · rcases runWire_pack (s := ⟨mem, p, msg, packScope avail (u32 body.genCppBody.fixedLen)⟩)
      hshort havail rfl (S := 0) rfl with
      ⟨hres, hroom⟩ | ⟨s', bs, hlen, hrun, hmem, hfixed, hshift, hbytes⟩
    · refine Or.inl ⟨?_, by rwa [Nat.zero_add] at hroom⟩
      rw [Traced.result_bind, show body.genCppBody.pack = body.fields.flatMap packWire from rfl,
        hres]
      rfl
    · refine Or.inr ⟨bs, hlen, ?_, fun hclear => hbytes (hclear.pack _ _)⟩
      have hret : toInt32 (s'.shift + s'.fl) =
          toInt32 (widths body.fields + shifts msg body.fields : ℕ) := by
        have hfixed' : s'.fl = (u32 body.genCppBody.fixedLen : ℕ) := hfixed
        rw [hshift, hfixed', toInt32_add, Nat.zero_add]
        refine toInt32_congr ?_
        show ((shifts msg body.fields : ℤ) + (widths body.fields % 2 ^ 32 : ℕ)) % 2 ^ 32 = _
        omega
      rw [show body.genCppBody.pack = body.fields.flatMap packWire from rfl, hrun, Traced.mk_bind,
        hmem, hret]
      exact congrArg _ (List.append_nil _)

/-- A number that is taken as an `int` does not grow. -/
lemma toInt32_le {n : ℕ} : toInt32 n ≤ n := by
  simp only [toInt32, Int.bmod]
  split_ifs <;> omega

omit [Named ν] [DecidableEq ν] in
/-- The strings add their lengths to `_shift`, and one for each of them. -/
lemma shifts_eq (msg : Message ν) (fields : List (WireField ν)) :
    shifts msg fields = (((fields.filter fun f => f.type = .varstr).map WireField.name).map
      fun f => (msg.text f).1.length).sum + (fields.filter fun f => f.type = .varstr).length := by
  induction fields with
  | nil => rfl
  | cons f fields ih =>
      rw [shifts, List.map_cons, List.sum_cons, shiftOf, ← shifts, ih]
      cases hf : f.type with
      | fixed ft =>
          rw [List.filter_cons_of_neg (by simp [hf])]
          exact Nat.zero_add _
      | varstr =>
          rw [List.filter_cons_of_pos (by simp [hf])]
          simp only [List.map_cons, List.sum_cons, List.length_cons, storedLen]
          omega

omit [Named ν] [DecidableEq ν] in
/-- **`cal_size` is too small** for a message with a string. -/
lemma calSize_lt {body : Schema ν} (msg : Message ν) {f : WireField ν} (hf : f ∈ body.fields)
    (hvar : f.type = .varstr) :
    body.calSize msg < (widths body.fields + shifts msg body.fields : ℕ) := by
  have hle : (body.genCppBody.varLen.map fun f => u32 (msg.text f).1.length).sum ≤
      (body.genCppBody.varLen.map fun f => (msg.text f).1.length).sum :=
    List.sum_le_sum fun g _ => Nat.mod_le _ _
  have hpos : 0 < (body.fields.filter fun f => f.type = .varstr).length :=
    List.length_pos_of_mem (List.mem_filter.mpr ⟨hf, decide_eq_true hvar⟩)
  have hshifts := shifts_eq msg body.fields
  have hsize := @toInt32_le (body.genCppBody.fixedLen +
    (body.genCppBody.varLen.map fun f => u32 (msg.text f).1.length).sum)
  refine lt_of_le_of_lt (le_trans (le_of_eq ?_) hsize) ?_
  · rw [Schema.calSize, Nat.cast_add]
  · rw [hshifts]
    exact_mod_cast (show body.genCppBody.fixedLen + _ < widths body.fields + _ from
      Nat.add_lt_add_left (Nat.lt_of_le_of_lt hle (Nat.lt_add_of_pos_right hpos)) _)

/-- **`cal_size` and `pack` agree on no message with a string**: what is enough for `cal_size` is
not enough for the terminating NULs. -/
theorem sizes_disagree {body : Schema ν} {msg : Message ν} (hshort : Short msg body.fields)
    {f : WireField ν} (hf : f ∈ body.fields) (hvar : f.type = .varstr) : ¬ SizesAgree body msg := by
  intro h
  have havail : (toUint32 (body.calSize msg)).toNat < 2 ^ 32 := by
    rw [toUint32]
    omega
  have henough := h.enough (fun _ => 0) 0
  rcases pack_cases hshort (fun _ => 0) 0 havail with ⟨hres, -⟩ | ⟨bs, hlen, hrun, -⟩
  · rw [returned, hres] at henough
    exact henough rfl
  · obtain ⟨-, hcard⟩ := h.size (fun _ => 0) 0 _ havail henough
    rw [hrun, card_written, hlen] at hcard
    exact absurd hcard (Int.ne_of_gt (calSize_lt msg hf hvar))

/-- The text `a`. -/
def letterA : CString := ⟨[97], by decide⟩

/-- A string alone, and a string behind another field. -/
def nameOnly : Schema String := ⟨[⟨"name", .varstr⟩], by decide⟩

@[inherit_doc nameOnly] def idAndName : Schema String :=
  ⟨[⟨"id", .fixed .int32⟩, ⟨"name", .varstr⟩], by decide⟩

/-- A letter behind a number. -/
theorem sizes_disagree_idAndName : ¬ SizesAgree idAndName ⟨fun _ => 7, fun _ => letterA⟩ :=
  sizes_disagree (fun _ _ _ => show 1 < 65535 by decide)
    (List.mem_cons_of_mem _ List.mem_cons_self) rfl

/-- **What `cal_size` says is not enough.**  With that much room `pack` refuses a string, or packs
it behind a number and writes beyond the room. -/
theorem sizes_disagree_fails :
    (nameOnly.calSize ⟨fun _ => 7, fun _ => letterA⟩ = 3 ∧
      returned (nameOnly.pack ⟨fun _ => 7, fun _ => letterA⟩ (fun _ => 0) (some 0) 3) =
        some (-1)) ∧
    (idAndName.calSize ⟨fun _ => 7, fun _ => letterA⟩ = 7 ∧
      returned (idAndName.pack ⟨fun _ => 7, fun _ => letterA⟩ (fun _ => 0) (some 0) 7) = some 8 ∧
      .write 7 ∈ (idAndName.pack ⟨fun _ => 7, fun _ => letterA⟩ (fun _ => 0) (some 0) 7).log) ∧
    ¬ SizesAgree nameOnly ⟨fun _ => 7, fun _ => letterA⟩ := by
  refine ⟨⟨by decide, by decide⟩, ⟨by decide, by decide, by decide⟩, fun h => ?_⟩
  exact h.enough (fun _ => 0) 0 (by decide)

end Codegen

end Axon
