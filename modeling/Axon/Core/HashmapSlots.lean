import Axon.Core.HashMapStr

/-!
# Slots and the table

A slot is `do_hash(key) % nslot_`, and `table_` has `nslot_ * 8` bytes, where the product is a
`uint32_t`.  The constructor takes any number of slots, `rehash` any but zero.

* **`HmapT.Ran`**, **`HashMapStr.Ran`** : tables with keys of type `int` and `string_t` after any
  sequence of calls that returned, with the number of slots accepted last.
* **`HmapT.Sized`** : no other call changes the number of slots or the bytes of the table.
* **`strHash_lt`** : a string hash has 28 bits.
* **`slots_inside_iff`** : exactly for which numbers of slots every slot is inside the table.
-/

namespace Axon

open Library

namespace HmapT

variable {K V : Type} {m m' m'' : HmapT K V} {n : ℕ}

/-- The table has been made for `n` slots. -/
structure Sized (m : HmapT K V) (n : ℕ) : Prop where
  nslot : m.nslot = n
  tableBytes : m.tableBytes = u32 (n * 8)

/-- A call that makes no new table. -/
structure SameTable (m m' : HmapT K V) : Prop where
  nslot : m'.nslot = m.nslot
  tableBytes : m'.tableBytes = m.tableBytes

lemma SameTable.refl (m : HmapT K V) : SameTable m m := ⟨rfl, rfl⟩

lemma SameTable.trans (h : SameTable m m') (h' : SameTable m' m'') : SameTable m m'' :=
  ⟨h'.nslot.trans h.nslot, h'.tableBytes.trans h.tableBytes⟩

lemma Sized.same (h : Sized m n) (hsame : SameTable m m') : Sized m' n :=
  ⟨hsame.nslot.trans h.nslot, hsame.tableBytes.trans h.tableBytes⟩

lemma sized_new {os : Libc} (h : HmapT.new os n = .ok m) : Sized m n := by
  obtain ⟨-, -, h⟩ := bind_eq_ok h
  obtain rfl := Except.ok.inj h
  exact ⟨rfl, rfl⟩

/-! ## What a call leaves of the table -/

lemma sameTable_setTable {s : ℕ} {p : Option ℕ} (h : m.setTable s p = .ok m') :
    SameTable m m' := by
  rw [setTable] at h
  split_ifs at h
  obtain rfl := Except.ok.inj h
  exact ⟨rfl, rfl⟩

lemma sameTable_attachLinkHead {p : Option ℕ} (h : m.attachLinkHead p = .ok m') :
    SameTable m m' := by
  cases p with
  | none => cases h
  | some a =>
      obtain ⟨h₁, -, h⟩ := bind_eq_ok h
      cases hhead : m.linkHead with
      | none =>
          rw [hhead] at h
          obtain ⟨h₂, -, h⟩ := bind_eq_ok h
          obtain rfl := Except.ok.inj h
          exact ⟨rfl, rfl⟩
      | some b =>
          rw [hhead] at h
          obtain ⟨h₂, -, h⟩ := bind_eq_ok h
          obtain ⟨h₃, -, h⟩ := bind_eq_ok h
          obtain rfl := Except.ok.inj h
          exact ⟨rfl, rfl⟩

lemma sameTable_detachLink {p : Option ℕ} (h : m.detachLink p = .ok m') : SameTable m m' := by
  cases p with
  | none =>
      obtain rfl := Except.ok.inj h
      exact .refl m
  | some a =>
      obtain ⟨e, -, h⟩ := bind_eq_ok h
      obtain ⟨h₁, -, h⟩ := bind_eq_ok h
      obtain ⟨h₂, -, h⟩ := bind_eq_ok h
      obtain ⟨h₃, -, h⟩ := bind_eq_ok h
      obtain rfl := Except.ok.inj h
      exact ⟨rfl, rfl⟩

section Keys

variable [HashKey K]

lemma sameTable_insert {a : ℕ} {key : K} {val : Option V} (h : m.insert a key val = .ok m') :
    SameTable m m' := by
  obtain ⟨s, -, h⟩ := bind_eq_ok h
  obtain ⟨head, -, h⟩ := bind_eq_ok h
  obtain ⟨h₁, -, h⟩ := bind_eq_ok h
  obtain ⟨m₁, hset, h⟩ := bind_eq_ok h
  obtain ⟨m₂, hattach, h⟩ := bind_eq_ok h
  obtain rfl := Except.ok.inj h
  have hsame := (sameTable_setTable hset).trans (sameTable_attachLinkHead hattach)
  exact ⟨hsame.nslot, hsame.tableBytes⟩

lemma sameTable_detach {p : Option ℕ} (h : m.detach p = .ok m') : SameTable m m' := by
  cases p with
  | none =>
      obtain rfl := Except.ok.inj h
      exact .refl m
  | some a =>
      obtain ⟨e, -, h⟩ := bind_eq_ok h
      obtain ⟨s, -, h⟩ := bind_eq_ok h
      obtain ⟨h₁, -, h⟩ := bind_eq_ok h
      obtain ⟨h₂, -, h⟩ := bind_eq_ok h
      obtain ⟨head, -, h⟩ := bind_eq_ok h
      obtain ⟨m₁, hset, h⟩ := bind_eq_ok h
      obtain ⟨h₃, -, h⟩ := bind_eq_ok h
      obtain ⟨m₂, hdetach, h⟩ := bind_eq_ok h
      obtain rfl := Except.ok.inj h
      have hfirst : SameTable m m₁ := by
        split_ifs at hset
        · exact sameTable_setTable hset
        · obtain rfl := Except.ok.inj hset
          exact .refl m
      have hlast := sameTable_detachLink hdetach
      exact ⟨hlast.nslot.trans hfirst.nslot, hlast.tableBytes.trans hfirst.tableBytes⟩

lemma sameTable_remove {p : Option ℕ} (h : m.remove p = .ok m') : SameTable m m' := by
  cases p with
  | none =>
      obtain rfl := Except.ok.inj h
      exact .refl m
  | some a =>
      obtain ⟨m₁, hdetach, h⟩ := bind_eq_ok h
      obtain ⟨h₁, -, h⟩ := bind_eq_ok h
      obtain rfl := Except.ok.inj h
      have hsame := sameTable_detach hdetach
      exact ⟨hsame.nslot, hsame.tableBytes⟩

lemma sameTable_removeAllFrom {fuel : ℕ} (h : removeAllFrom fuel m = .ok m') :
    SameTable m m' := by
  induction fuel generalizing m with
  | zero =>
      rw [removeAllFrom] at h
      split_ifs at h
      obtain rfl := Except.ok.inj h
      exact .refl m
  | succ fuel ih =>
      rw [removeAllFrom] at h
      cases hhead : m.linkHead with
      | none =>
          rw [hhead] at h
          obtain rfl := Except.ok.inj h
          exact .refl m
      | some a =>
          rw [hhead] at h
          obtain ⟨m₁, hremove, h⟩ := bind_eq_ok h
          exact (sameTable_remove hremove).trans (ih h)

lemma sized_rehash {os : Libc} (h : m.rehash os n = .ok m') : Sized m' n := by
  obtain ⟨-, -, h⟩ := bind_eq_ok h
  obtain ⟨-, -, h⟩ := bind_eq_ok h
  obtain ⟨r, -, h⟩ := bind_eq_ok h
  obtain rfl := Except.ok.inj h
  exact ⟨rfl, rfl⟩

variable [DecidableEq K]

lemma sameTable_removeGet {key : K} {r : Option V} (h : m.removeGet key = .ok (m', r)) :
    SameTable m m' := by
  obtain ⟨p, -, h⟩ := bind_eq_ok h
  cases p with
  | none =>
      obtain ⟨rfl, -⟩ := Prod.mk.inj (Except.ok.inj h)
      exact .refl m
  | some a =>
      obtain ⟨e, -, h⟩ := bind_eq_ok h
      obtain ⟨m₁, hremove, h⟩ := bind_eq_ok h
      obtain ⟨rfl, -⟩ := Prod.mk.inj (Except.ok.inj h)
      exact sameTable_remove hremove

/-- **The tables** after any sequence of calls that returned, with the number of slots that the
constructor or `rehash` has accepted last.  `find` and `get_data` change nothing. -/
inductive Ran : HmapT K V → ℕ → Prop where
  | new {os : Libc} {n : ℕ} {m : HmapT K V} (hn : n < 2 ^ 32) (h : HmapT.new os n = .ok m) :
      Ran m n
  | insert {n a : ℕ} {m m' : HmapT K V} {key : K} {val : Option V} (hr : Ran m n)
      (h : m.insert a key val = .ok m') : Ran m' n
  | removeGet {n : ℕ} {m m' : HmapT K V} {key : K} {r : Option V} (hr : Ran m n)
      (h : m.removeGet key = .ok (m', r)) : Ran m' n
  | remove {n : ℕ} {m m' : HmapT K V} {p : Option ℕ} (hr : Ran m n)
      (h : m.remove p = .ok m') : Ran m' n
  | removeAll {n : ℕ} {m m' : HmapT K V} (hr : Ran m n) (h : m.removeAll = .ok m') : Ran m' n
  | attachLinkHead {n : ℕ} {m m' : HmapT K V} {p : Option ℕ} (hr : Ran m n)
      (h : m.attachLinkHead p = .ok m') : Ran m' n
  | detachLink {n : ℕ} {m m' : HmapT K V} {p : Option ℕ} (hr : Ran m n)
      (h : m.detachLink p = .ok m') : Ran m' n
  | rehash {os : Libc} {n n' : ℕ} {m m' : HmapT K V} (hr : Ran m n) (hn : n' < 2 ^ 32)
      (h : m.rehash os n' = .ok m') : Ran m' n'

/-- **Every run** leaves the table as it was made for the number of slots. -/
lemma Ran.sized (h : Ran m n) : Sized m n ∧ n < 2 ^ 32 := by
  induction h with
  | new hn h => exact ⟨sized_new h, hn⟩
  | insert _ h ih => exact ⟨ih.1.same (sameTable_insert h), ih.2⟩
  | removeGet _ h ih => exact ⟨ih.1.same (sameTable_removeGet h), ih.2⟩
  | remove _ h ih => exact ⟨ih.1.same (sameTable_remove h), ih.2⟩
  | removeAll _ h ih => exact ⟨ih.1.same (sameTable_removeAllFrom h), ih.2⟩
  | attachLinkHead _ h ih => exact ⟨ih.1.same (sameTable_attachLinkHead h), ih.2⟩
  | detachLink _ h ih => exact ⟨ih.1.same (sameTable_detachLink h), ih.2⟩
  | rehash _ hn h _ => exact ⟨sized_rehash h, hn⟩

end Keys

/-- The slot `h % nslot_` of a hash is computed, and its pointer is inside the table. -/
def SlotInside (m : HmapT K V) (h : ℕ) : Prop :=
  m.nslot ≠ 0 ∧ 8 * (h % m.nslot + 1) ≤ m.tableBytes

/-- In a table for fewer than `2^29` slots the product has not wrapped. -/
lemma Sized.slotInside (h : Sized m n) (hpos : 0 < n) (hlt : n < 2 ^ 29) (hash : ℕ) :
    m.SlotInside hash := by
  have hmod := Nat.mod_lt hash hpos
  rw [SlotInside, h.nslot, h.tableBytes, u32_of_lt (by omega)]
  exact ⟨Nat.ne_of_gt hpos, by omega⟩

end HmapT

/-! ## Keys of type `string_t` -/

namespace HashMapStr

open HmapT Traced

variable {V : Type} {malloc : Heap (List UInt8) → Malloc} {st st' : HashMapStr V} {n : ℕ}

/-- Nothing is said about the requests for memory, nor about what is returned. -/
lemma any_spec {α : Type} (x : Asking α) : Spec (fun _ => True) (fun _ => True) x :=
  ⟨fun _ _ => trivial, fun _ _ => trivial⟩

/-- The number of slots after a call. -/
def Op.slots (n : ℕ) : Op V → ℕ
  | .rehash _ n' => n'
  | _ => n

lemma rehash_spec (os : Libc) (n : ℕ) :
    Spec (fun _ => True) (fun st' : HashMapStr V => Sized st'.map n) (st.rehash malloc os n) := by
  refine (any_spec _).then_ fun _ => (any_spec _).then_ fun _ => (any_spec _).then_ fun r => ?_
  exact Spec.pure ⟨rfl, rfl⟩

/-- **One call** keeps the table, unless it makes a new one. -/
lemma op_spec (h : Sized st.map n) (o : Op V) :
    Spec (fun _ => True) (fun st' : HashMapStr V => Sized st'.map (o.slots n))
      (o.run malloc st) := by
  cases o with
  | string u => exact (any_spec _).then_ fun mem => Spec.pure h
  | insert a key val =>
      refine (any_spec _).then_ fun mem₁ => (any_spec _).then_ fun r =>
        (any_spec _).then_ fun mem₂ =>
        (any_spec _).then_ fun mem₃ => ?_
      let _ := returned r.1
      have hins : ∀ map, st.map.insert a (.key a) val = .ok map → SameTable st.map map :=
        fun map => sameTable_insert
      refine (Spec.lift hins).bind fun map hsame => ?_
      exact (any_spec _).then_ fun mem₄ => Spec.pure (h.same hsame)
  | remove a =>
      refine (any_spec _).then_ fun e => (any_spec _).then_ fun r => ?_
      let _ := returned r.1
      have hrem : ∀ map, st.map.remove (some a) = .ok map → SameTable st.map map :=
        fun map => sameTable_remove
      refine (Spec.lift hrem).bind fun map hsame => ?_
      exact (any_spec _).then_ fun mem => Spec.pure (h.same hsame)
  | rehash os n' => exact rehash_spec os n'
  | lruMove a =>
      refine Spec.lift fun st' hmove => ?_
      obtain ⟨m₁, hdetach, hmove⟩ := bind_eq_ok hmove
      obtain ⟨m₂, hattach, hmove⟩ := bind_eq_ok hmove
      obtain rfl := Except.ok.inj hmove
      exact (h.same (sameTable_detachLink hdetach)).same (sameTable_attachLinkHead hattach)
  | find key =>
      have hfind : Spec (fun _ => True) (fun r : Option ℕ × HashMapStr V => r.2.map = st.map)
          (st.find malloc key) := by
        refine (any_spec _).then_ fun mem₁ => (any_spec _).then_ fun r =>
          (any_spec _).then_ fun p =>
          (any_spec _).then_ fun entry => (any_spec _).then_ fun mem₂ => ?_
        exact Spec.pure rfl
      exact hfind.bind fun r hr => Spec.pure (hr ▸ h)

/-- **The tables** with keys of type `string_t` after any sequence of calls that returned, with the
number of slots accepted last. -/
inductive Ran : HashMapStr V → ℕ → Prop where
  | new {os : Libc} {n : ℕ} {m : HmapT KeyObj V} (mem : Strings KeyObj) (hn : n < 2 ^ 32)
      (h : HmapT.new os n = .ok m) : Ran ⟨m, mem⟩ n
  | op {malloc : Heap (List UInt8) → Malloc} {st st' : HashMapStr V} {n : ℕ} (o : Op V)
      (hr : Ran st n) (hn : o.slots n < 2 ^ 32) (h : (o.run malloc st).result = .ok st') :
      Ran st' (o.slots n)

lemma Ran.sized (h : Ran st n) : Sized st.map n ∧ n < 2 ^ 32 := by
  induction h with
  | new mem hn h => exact ⟨sized_new h, hn⟩
  | op o _ hn h ih => exact ⟨(op_spec ih.1 o).result _ h, hn⟩

end HashMapStr

/-- The upper four bits of a hash are folded back. -/
lemma fold_upper (y : BitVec 32) :
    (y ^^^ (y &&& 0xF0000000#32) >>> 24) &&& ~~~(y &&& 0xF0000000#32) &&& 0xF0000000#32 = 0#32 := by
  have hmask : ∀ i < 32, i < 28 → (0xF0000000#32).getLsbD i = false := by decide
  ext i hi
  simp only [BitVec.getElem_and, BitVec.getElem_xor, BitVec.getElem_not,
    BitVec.getElem_ushiftRight, BitVec.getLsbD_and, BitVec.getElem_zero]
  by_cases h : i < 28
  · have hzero := hmask i hi h
    rw [BitVec.getLsbD_eq_getElem hi] at hzero
    simp [hzero]
  · have hhigh : y.getLsbD (24 + i) = false := BitVec.getLsbD_of_ge _ _ (by omega)
    rw [hhigh]
    cases y[i] <;> cases (0xF0000000#32)[i] <;> simp

/-- **A round of `str_hash`** leaves 28 bits. -/
lemma strHashStep_and (hash : UInt32) (c : UInt8) : strHashStep hash c &&& 0xF0000000 = 0 := by
  rw [strHashStep]
  split_ifs with hx
  · exact UInt32.toBitVec_inj.mp (fold_upper _)
  · exact not_not.mp hx

lemma strHash_lt (s : List UInt8) : strHash s < 2 ^ 28 := by
  have hbits : ∀ l : List UInt8, ∀ v : UInt32, v &&& 0xF0000000 = 0 →
      l.foldl strHashStep v &&& 0xF0000000 = 0 := by
    intro l
    induction l with
    | nil => exact fun v hv => hv
    | cons c l ih => exact fun v _ => ih _ (strHashStep_and v c)
  have hzero := hbits s 0 rfl
  rw [strHash]
  generalize s.foldl strHashStep 0 = v at hzero ⊢
  have hand : v = v &&& 0x0FFFFFFF := by
    have hall : v.toBitVec = v.toBitVec &&& (0xF0000000#32 ||| 0x0FFFFFFF#32) :=
      (BitVec.and_allOnes).symm
    rw [BitVec.and_or_distrib_left, show v.toBitVec &&& 0xF0000000#32 = 0#32 from
      UInt32.toBitVec_inj.mpr hzero, BitVec.zero_or] at hall
    exact UInt32.toBitVec_inj.mp hall
  have hlt : v.toNat ≤ 0x0FFFFFFF := by
    rw [hand, UInt32.toNat_and]
    exact Nat.and_le_right
  calc (v &&& 0x7FFFFFFF).toNat
      ≤ v.toNat := by
        rw [UInt32.toNat_and]
        exact Nat.and_le_left
    _ < 2 ^ 28 := by omega

/-- The largest hash is that of seven bytes `15`. -/
lemma strHash_max : strHash (List.replicate 7 15) = 2 ^ 28 - 1 := by decide

/-! ## Which tables are large enough -/

/-- From `2^29` slots on the product has wrapped, and the last slots are outside. -/
lemma HmapT.Sized.lt_of_all {V : Type} {m : HmapT ℤ V} {n : ℕ} (h : m.Sized n) (hn : n < 2 ^ 32)
    (hall : ∀ key : ℤ, -2 ^ 31 ≤ key → key < 2 ^ 31 → m.SlotInside (HashKey.doHash key)) :
    0 < n ∧ n < 2 ^ 29 := by
  have hpos : 0 < n := by
    have hzero := (hall 0 (by decide) (by decide)).1
    rw [h.nslot] at hzero
    exact Nat.pos_of_ne_zero hzero
  refine ⟨hpos, ?_⟩
  by_contra hbig
  -- the key whose slot is the last one
  obtain ⟨key, hlo, hhi, hkey⟩ : ∃ key : ℤ, -2 ^ 31 ≤ key ∧ key < 2 ^ 31 ∧
      HashKey.doHash key = n - 1 := by
    by_cases hsmall : n - 1 < 2 ^ 31
    · refine ⟨(n - 1 : ℕ), by omega, by omega, ?_⟩
      show (((n - 1 : ℕ) : ℤ) % 2 ^ 32).toNat = n - 1
      omega
    · refine ⟨(n - 1 : ℕ) - 2 ^ 32, by omega, by omega, ?_⟩
      show ((((n - 1 : ℕ) : ℤ) - 2 ^ 32) % 2 ^ 32).toNat = n - 1
      omega
  have hslot := (hall key hlo hhi).2
  rw [hkey, h.nslot, h.tableBytes, Nat.mod_eq_of_lt (by omega), u32] at hslot
  omega

/-- The hashes of strings, which have 28 bits, may all be inside a table that has wrapped. -/
lemma HmapT.Sized.strings_iff {V : Type} {m : HmapT KeyObj V} {n : ℕ} (h : m.Sized n)
    (hn : n < 2 ^ 32) : (∀ s : CString, m.SlotInside (strHash s.1)) ↔
      0 < n ∧ (n < 2 ^ 29 ∨ 2 ^ 31 ≤ n * 8 % 2 ^ 32) := by
  constructor
  · intro hall
    obtain ⟨hpos, hslot⟩ := hall ⟨List.replicate 7 15, by decide⟩
    rw [h.nslot] at hpos
    refine ⟨Nat.pos_of_ne_zero hpos, ?_⟩
    by_contra hbad
    rw [strHash_max, h.nslot, h.tableBytes, Nat.mod_eq_of_lt (by omega), u32] at hslot
    omega
  · rintro ⟨hpos, hlt | hwrapped⟩ s
    · exact h.slotInside hpos hlt _
    · have hhash := strHash_lt s.1
      have hmod := Nat.mod_le (strHash s.1) n
      rw [SlotInside, h.nslot, h.tableBytes, u32]
      exact ⟨Nat.ne_of_gt hpos, by omega⟩

/-- **Every slot is inside the table**, after every sequence of calls: for keys of type `int`
exactly when the number of slots accepted last is positive and below `2^29`, for keys of type
`string_t` also where the wrapped product leaves room for the `2^28` hashes. -/
theorem slots_inside_iff {V : Type} :
    (∀ (m : HmapT ℤ V) (n : ℕ), m.Ran n →
      ((∀ key : ℤ, -2 ^ 31 ≤ key → key < 2 ^ 31 → m.SlotInside (HashKey.doHash key)) ↔
        0 < n ∧ n < 2 ^ 29)) ∧
    ∀ (st : HashMapStr V) (n : ℕ), st.Ran n →
      ((∀ s : CString, st.map.SlotInside (strHash s.1)) ↔
        0 < n ∧ (n < 2 ^ 29 ∨ 2 ^ 31 ≤ n * 8 % 2 ^ 32)) := by
  constructor
  · intro m n h
    obtain ⟨hsized, hn⟩ := h.sized
    exact ⟨hsized.lt_of_all hn, fun hok key _ _ => hsized.slotInside hok.1 hok.2 _⟩
  · intro st n h
    obtain ⟨hsized, hn⟩ := h.sized
    exact hsized.strings_iff hn

/-- A table of three slots after a `rehash` to seven. -/
theorem slots_inside_rehashed : ∃ m : HmapT ℤ ℕ, m.Ran 7 ∧
    m.SlotInside (HashKey.doHash (-1 : ℤ)) := by
  have h₀ : HmapT.Ran _ 3 :=
    .new (by decide) (show HmapT.new zeroLibc 3 = .ok (_ : HmapT ℤ ℕ) from rfl)
  have h₁ : HmapT.Ran _ 7 :=
    .rehash h₀ (by decide) (show HmapT.rehash zeroLibc _ 7 = .ok _ from rfl)
  exact ⟨_, h₁, (slots_inside_iff.1 _ _ h₁).mpr (by decide) (-1) (by decide) (by decide)⟩

/-- **The constructor accepts zero slots**, and `find` divides by zero; it accepts `2^29` slots, for
which it asks for no bytes at all. -/
theorem slots_outside : ∃ m m' : HmapT ℤ ℕ, m.Ran 0 ∧ m.find 5 = .error .divByZero ∧
    m'.Ran (2 ^ 29) ∧ m'.tableBytes = 0 ∧ m'.find 5 = .error .badAccess := by
  have h₀ : HmapT.Ran _ 0 :=
    .new (by decide) (show HmapT.new zeroLibc 0 = .ok (_ : HmapT ℤ ℕ) from rfl)
  have h₁ : HmapT.Ran _ (2 ^ 29) :=
    .new (by decide) (show HmapT.new zeroLibc (2 ^ 29) = .ok (_ : HmapT ℤ ℕ) from rfl)
  exact ⟨_, _, h₀, rfl, h₁, rfl, rfl⟩

end Axon
