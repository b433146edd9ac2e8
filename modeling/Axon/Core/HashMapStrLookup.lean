import Axon.Core.HashMapStr
import Axon.Core.HashmapStores

/-!
# Lookups in a `HashMapStr`

A key counts by its content only: `do_hash` and `operator==` see the same in a short string, which
is in the object, and in a long one, which is in a block, and a copy has the content of the
original.

* **`byContent`** : the hash of the objects, by what they stand for.
* **`Keyed`** : the table is in order for these hashes, and its entries have their keys.
* `update_yields`, `doHash_yields`, `findFrom_eq` : the steps of the member functions.
* **`Keyed.op`** : every call returns, and keeps the table in order.
* **`lookups_agree`** : the two overloads of `find` return the same entry.
-/

namespace Axon

open Library Strings

/-- The hash of an object, by what it stands for. -/
@[reducible] def byContent (A : Contents KeyObj) : HashKey KeyObj :=
  ⟨fun i => strHash ((A i).getD emptyText).1⟩

namespace HmapT

variable {K V : Type} {m : HmapT K V} {l : List (Cell K V)} {b : ℕ → List ℕ} {a : ℕ}

/-! ## Hash functions -/

/-- A table is in order for every hash function with the same values on its keys. -/
lemma stores_hash {f g : K → ℕ} (h : @Stores K V ⟨f⟩ m l b) (heq : ∀ c ∈ l, g c.key = f c.key) :
    @Stores K V ⟨g⟩ m l b := by
  obtain ⟨hpos, hbytes, hmem, hlink, hbucket, hin, hsize⟩ := h
  refine @Stores.mk K V ⟨g⟩ m l b hpos hbytes hmem hlink hbucket (fun s hs x => ?_) hsize
  rw [hin s hs x]
  refine exists_congr fun c => and_congr_right fun hc => ?_
  show _ ∧ f c.key % m.nslot = s ↔ _ ∧ g c.key % m.nslot = s
  rw [heq c hc]

/-- `insert` looks at the hash of its key only. -/
lemma insert_hash {f g : K → ℕ} {k : K} (heq : g k = f k) (v : Option V) :
    @insert K V ⟨g⟩ m a k v = @insert K V ⟨f⟩ m a k v := by
  simp only [insert, slotOf, heq]

/-- `remove` looks at the hash of the key of its entry only. -/
lemma remove_hash {f g : K → ℕ} {e : HmapEntry K V} (he : m.entries.cell a = some e)
    (heq : g e.key = f e.key) : @remove K V ⟨g⟩ m (some a) = @remove K V ⟨f⟩ m (some a) := by
  have hdetach : @detach K V ⟨g⟩ m (some a) = @detach K V ⟨f⟩ m (some a) := by
    simp only [detach, deref_eq he, ok_bind, slotOf, heq]
  simp only [remove, hdetach]

/-- An assignment to another field leaves keys and values alone. -/
lemma contents_assign {h h' : Heap (HmapEntry K V)} {f : HmapEntry K V → HmapEntry K V}
    (hok : assign h a f = .ok h')
    (hf : ∀ e, (some ((f e).key, (f e).data)) = some (e.key, e.data)) :
    contents h' = contents h := by
  rw [assign] at hok
  split at hok
  · obtain rfl := Except.ok.inj hok
    exact Heap.field_write_same hf
  · cases hok

lemma contents_assignIf {h h' : Heap (HmapEntry K V)} {p : Option ℕ}
    {f : HmapEntry K V → HmapEntry K V} (hok : assignIf h p f = .ok h')
    (hf : ∀ e, (some ((f e).key, (f e).data)) = some (e.key, e.data)) :
    contents h' = contents h := by
  cases p with
  | none =>
      obtain rfl := Except.ok.inj hok
      rfl
  | some b => exact contents_assign hok hf

end HmapT

/-- What a key argument stands for. -/
def KeyArg.content (A : Contents KeyObj) : KeyArg → CString
  | .obj i => (A i).getD emptyText
  | .text s => s

/-- An argument a caller may pass: a constructed object, or a text whose length and `NUL` fit a
`uint32_t`. -/
def KeyArg.Ok (A : Contents KeyObj) : KeyArg → Prop
  | .obj i => A i ≠ none
  | .text s => s.1.length + 1 < 2 ^ 32

namespace HashMapStr

open Traced

variable {V : Type} {malloc : Heap (List UInt8) → Malloc} {mem : Strings KeyObj}
  {A : Contents KeyObj} {i : KeyObj} {s : CString} {st : HashMapStr V}

/-- The request was met. -/
def Granted (r : MallocAnswer) : Prop := Met r.1 r.2

instance (r : MallocAnswer) : Decidable (Granted r) :=
  decidable_of_iff (r.1.addr ≠ 0 ∧ r.1.addr < 2 ^ 64 ∧ ¬ r.2.Live r.1.addr)
    ⟨fun h => ⟨h.1, h.2.1, h.2.2⟩, fun h => ⟨h.ne_null, h.lt, h.fresh⟩⟩

/-! ## The steps -/

lemma update_yields (h : Laid mem A) {u : Update KeyObj} (hu : u.Allowed A) :
    Yields Granted (fun mem' => Laid mem' (u.effect A)) (update malloc mem u) := by
  refine Yields.tell fun hmet => ?_
  obtain ⟨mem', l, hrun, hlays, -⟩ := h.call hu hmet
  exact ⟨mem', hrun, h.lays hlays⟩

/-- A destructor takes back what a constructor did. -/
lemma destroy_yields (h : Laid mem (Function.update A i (some s))) (hi : A i = none) :
    Yields Granted (fun mem' => Laid mem' A) (update malloc mem (.destroy i)) := by
  have hu : (Update.destroy i).Allowed (Function.update A i (some s)) := by
    show Function.update A i (some s) i ≠ none
    rw [Function.update_self]
    exact nofun
  refine (update_yields h hu).imp fun mem' hmem' => ?_
  have heq : (Update.destroy i).effect (Function.update A i (some s)) = A := by
    show Function.update (Function.update A i (some s)) i none = A
    rw [Function.update_idem, ← hi, Function.update_eq_self]
  rwa [heq] at hmem'

lemma pass_yields (h : Laid mem A) {key : KeyArg} (hkey : key.Ok A) (hp : A .param = none) :
    Yields Granted (fun mem' => Laid mem' (Function.update A .param (some (key.content A))))
      (pass malloc mem key) := by
  cases key with
  | obj i =>
      obtain ⟨t, ht⟩ := Option.ne_none_iff_exists'.mp hkey
      have hcontent : some ((KeyArg.obj i).content A) = A i := by
        rw [KeyArg.content, ht, Option.getD_some]
      rw [hcontent]
      exact update_yields (u := .copyConstruct .param i) h ⟨hp, hkey⟩
  | text s => exact update_yields (u := .construct .param (.text s)) h ⟨hp, hkey⟩

/-- **`do_hash`** returns the hash of the content, and its copy is gone. -/
lemma doHash_yields (h : Laid mem A) (hi : A i = some s) (hh : A .hashed = none) :
    Yields Granted (fun r => r.1 = strHash s.1 ∧ Laid r.2 A) (doHash malloc mem i) := by
  refine (update_yields (u := .copyConstruct .hashed i) h ⟨hh, by rw [hi]; exact nofun⟩).bind
    fun mem₁ h₁ => ?_
  have heffect : (Update.copyConstruct KeyObj.hashed i).effect A =
      Function.update A .hashed (some s) := by
    show Function.update A .hashed (A i) = _
    rw [hi]
  rw [heffect] at h₁
  have hchars : mem₁.chars (mem₁.cStr .hashed) = .ok s.1 :=
    (h₁.shows .hashed s (Function.update_self ..)).terminated.chars s.2
  refine (Yields.lift hchars rfl : Yields Granted (fun t => t = s.1) _).bind fun t ht => ?_
  subst ht
  exact (destroy_yields h₁ hh).bind fun mem₂ h₂ => Yields.pure ⟨rfl, h₂⟩

/-- **The comparisons** compare contents. -/
lemma equalCstr_eq (h : Laid mem A) (hi : A i = some s) (t : CString) :
    mem.equalCstr i (.text t) = .ok (decide (A i = some t)) := by
  refine ((h.shows i s hi).equalCstr_eq s.2 (.text mem t) t.2).trans ?_
  simp only [hi, Option.some.injEq, Subtype.ext_iff]

lemma equal_eq {j : KeyObj} {t : CString} (h : Laid mem A) (hi : A i = some s) (hj : A j = some t) :
    mem.equal i j = .ok (decide (A i = some t)) := by
  refine ((h.shows i s hi).equalCstr_eq s.2 (h.shows j t hj).terminated t.2).trans ?_
  simp only [hi, Option.some.injEq, Subtype.ext_iff]

/-- The loop of `find` stops at the first node whose key passes the test. -/
lemma findFrom_eq {test : KeyObj → Except Fault Bool} {passes : ℕ → Bool}
    {h : Heap (HmapEntry KeyObj V)} {p : Option ℕ} {l : List ℕ} {fuel : ℕ}
    (hl : Chain (HmapT.bucketFields h).next p l)
    (htest : ∀ a ∈ l, ∃ e, h.cell a = some e ∧ test e.key = .ok (passes a))
    (hfuel : l.length ≤ fuel) : findFrom test h fuel p = .ok (l.find? passes) := by
  induction l generalizing p fuel with
  | nil =>
      obtain rfl := hl
      rw [findFrom]
      rfl
  | cons a l ih =>
      obtain ⟨rfl, hnext⟩ := hl
      obtain ⟨e, he, htrue⟩ := htest a List.mem_cons_self
      obtain ⟨fuel, rfl⟩ := Nat.exists_eq_succ_of_ne_zero
        (show fuel ≠ 0 from fun h0 => by simp [h0] at hfuel)
      have hrest : findFrom test h fuel e.next = .ok (l.find? passes) := ih
        (by simpa [HmapT.bucketFields, Heap.field, he] using hnext)
        (fun x hx => htest x (List.mem_cons_of_mem a hx)) (by simpa using hfuel)
      rw [findFrom, deref_eq he, ok_bind, htrue, ok_bind, hrest, List.find?_cons]
      cases passes a <;> rfl

/-! ## Tables in order -/

/-- **The table is in order** for the contents of the keys: the cells `l`, in the buckets `b`. -/
structure Keyed (st : HashMapStr V) (A : Contents KeyObj) (l : List (Cell KeyObj V))
    (b : ℕ → List ℕ) : Prop where
  laid : Laid st.mem A
  stores : @HmapT.Stores KeyObj V (byContent A) st.map l b
  /-- An entry has its own key. -/
  named : ∀ c ∈ l, c.key = .key c.addr ∧ A (.key c.addr) ≠ none
  /-- Where there is no entry, there is no key. -/
  gone : ∀ a, a ∉ l.map Cell.addr → A (.key a) = none
  param : A .param = none
  hashed : A .hashed = none

namespace Keyed

variable {l : List (Cell KeyObj V)} {b : ℕ → List ℕ} {a : ℕ}

/-- The entry at an address, and its key. -/
lemma entry (h : Keyed st A l b) (ha : a ∈ l.map Cell.addr) :
    ∃ e s, st.map.entries.cell a = some e ∧ e.key = .key a ∧ A (.key a) = some s := by
  let _ := byContent A
  obtain ⟨c, hc, rfl⟩ := List.mem_map.mp ha
  obtain ⟨e, he, hkey, -⟩ := h.stores.entry_of_mem hc
  obtain ⟨hname, hne⟩ := h.named c hc
  obtain ⟨s, hs⟩ := Option.ne_none_iff_exists'.mp hne
  exact ⟨e, s, he, hkey.trans hname, hs⟩

lemma live_iff (h : Keyed st A l b) : st.map.entries.Live a ↔ a ∈ l.map Cell.addr := by
  let _ := byContent A
  exact h.stores.live_iff

/-- The bucket in which the entries with a content are. -/
lemma mem_bucket (h : Keyed st A l b) (ha : A (.key a) = some s) :
    a ∈ b (strHash s.1 % st.map.nslot) := by
  let _ := byContent A
  have hmem : a ∈ l.map Cell.addr := by
    by_contra hout
    rw [h.gone a hout] at ha
    exact absurd ha nofun
  obtain ⟨c, hc, rfl⟩ := List.mem_map.mp hmem
  refine (h.stores.bucket_mem _ (Nat.mod_lt _ h.stores.nslot_pos) _).mpr ⟨c, hc, rfl, ?_⟩
  show strHash ((A c.key).getD emptyText).1 % _ = _
  rw [(h.named c hc).1, ha, Option.getD_some]

/-- The entry both overloads of `find` return. -/
def lookup (st : HashMapStr V) (A : Contents KeyObj) (b : ℕ → List ℕ) (s : CString) : Option ℕ :=
  (b (strHash s.1 % st.map.nslot)).find? fun a => A (.key a) = some s

/-- **`find` with a comparison of contents.** -/
lemma findFrom_lookup (h : Keyed st A l b) (test : KeyObj → Except Fault Bool)
    (htest : ∀ a, A (.key a) ≠ none → test (.key a) = .ok (decide (A (.key a) = some s))) :
    ∃ head, headOf st.map (strHash s.1) = .ok head ∧
      findFrom test st.map.entries st.map.entries.bound head = .ok (lookup st A b s) := by
  let _ := byContent A
  have hpos := h.stores.nslot_pos
  have hslt : strHash s.1 % st.map.nslot < st.map.nslot := Nat.mod_lt _ hpos
  have hlive := h.stores.live_of_bucket hslt
  refine ⟨_, (if_neg (Nat.ne_of_gt hpos)).trans (HmapT.tableAt_eq h.stores.tableBytes hslt), ?_⟩
  refine findFrom_eq (h.stores.bucket _ hslt).chain (fun a ha => ?_)
    (Heap.length_le_bound (h.stores.bucket _ hslt).nodup hlive)
  obtain ⟨e, t, he, hkey, ht⟩ := h.entry (h.live_iff.mp (hlive a ha))
  refine ⟨e, he, ?_⟩
  rw [hkey, htest a (by rw [ht]; exact nofun)]

/-- **`NULL` means that there is no such key.** -/
lemma lookup_eq_none_iff (h : Keyed st A l b) :
    lookup st A b s = none ↔ ∀ a, A (.key a) ≠ some s := by
  rw [lookup, List.find?_eq_none]
  constructor
  · intro hnone a ha
    exact hnone a (h.mem_bucket ha) (decide_eq_true ha)
  · intro hne a _ ha
    exact hne a (of_decide_eq_true ha)

lemma lookup_eq_some (h : lookup st A b s = some a) : A (.key a) = some s := by
  rw [lookup] at h
  simpa using List.find?_some h

/-! ## Calls -/

lemma findCstr_eq (h : Keyed st A l b) (s : CString) :
    st.findCstr s = .ok (lookup st A b s) := by
  obtain ⟨head, hhead, hfind⟩ := h.findFrom_lookup
    (fun i => st.mem.equalCstr i (.text s)) (s := s) fun a ha => by
      obtain ⟨t, ht⟩ := Option.ne_none_iff_exists'.mp ha
      exact equalCstr_eq h.laid ht s
  rw [findCstr, hhead, ok_bind, hfind]

/-- The same table, with other strings in memory. -/
lemma of_mem (h : Keyed st A l b) (hmem : Laid mem A) : Keyed { st with mem := mem } A l b :=
  ⟨hmem, h.stores, h.named, h.gone, h.param, h.hashed⟩

/-- **`find`** of a key argument. -/
lemma find_yields (h : Keyed st A l b) (key : KeyArg) (hkey : key.Ok A) :
    Yields Granted (fun r => r.1 = lookup st A b (key.content A) ∧ Keyed r.2 A l b)
      (st.find malloc key) := by
  set B := Function.update A .param (some (key.content A)) with hB
  have hBparam : B .param = some (key.content A) := Function.update_self ..
  have hBkey : ∀ a, B (.key a) = A (.key a) := fun a => Function.update_of_ne (by simp) _ _
  refine (pass_yields h.laid hkey h.param).bind fun mem₁ h₁ => ?_
  have hBhashed : B .hashed = none :=
    (Function.update_of_ne (by simp) _ _).trans h.hashed
  refine (doHash_yields h₁ hBparam hBhashed).bind fun r hr => ?_
  obtain ⟨hash, mem₂⟩ := r
  obtain ⟨rfl, h₂⟩ := hr
  obtain ⟨head, hhead, hfind⟩ := h.findFrom_lookup (fun i => mem₂.equal i .param)
    (s := key.content A) fun a ha => by
      obtain ⟨t, ht⟩ := Option.ne_none_iff_exists'.mp ha
      rw [← hBkey] at ht ⊢
      exact equal_eq h₂ ht hBparam
  refine (Yields.lift hhead rfl : Yields _ (fun p => p = head) _).bind fun p hp => ?_
  subst hp
  refine (Yields.lift hfind rfl : Yields _ (fun r => r = _) _).bind fun entry hentry => ?_
  exact (destroy_yields h₂ h.param).bind fun mem₃ h₃ => Yields.pure ⟨hentry, h.of_mem h₃⟩

/-- Where the contents of the keys in the table are the same. -/
lemma stores_of_eq (h : Keyed st A l b) {A' : Contents KeyObj} {l' : List (Cell KeyObj V)}
    {b' : ℕ → List ℕ} {m : HmapT KeyObj V} (hm : @HmapT.Stores KeyObj V (byContent A) m l' b')
    (hsub : ∀ c ∈ l', c ∈ l ∧ A' (.key c.addr) = A (.key c.addr)) :
    @HmapT.Stores KeyObj V (byContent A') m l' b' := by
  refine HmapT.stores_hash hm fun c hc => ?_
  rw [(h.named c (hsub c hc).1).1, (hsub c hc).2]

/-- The table after an insertion, once the hash is known. -/
lemma insert_map (h : Keyed st A l b) (ha : a ∉ l.map Cell.addr) (s : CString) (val : Option V) :
    ∃ m' b', @HmapT.insert KeyObj V (returned (strHash s.1)) st.map a (.key a) val = .ok m' ∧
      @HmapT.Stores KeyObj V (byContent (Function.update A (.key a) (some s))) m'
        (⟨a, .key a, val⟩ :: l) b' := by
  let A' := Function.update A (.key a) (some s)
  let _ := byContent A'
  have hstores : HmapT.Stores st.map l b := by
    refine h.stores_of_eq h.stores fun c hc => ⟨hc, ?_⟩
    have hne : c.addr ≠ a := fun hca => ha (hca ▸ List.mem_map_of_mem hc)
    exact Function.update_of_ne (by simpa using hne) _ _
  obtain ⟨m', b', hins, -, hstores'⟩ := hstores.insert
    (fun hlive => ha (hstores.live_iff.mp hlive)) (.key a) val
  refine ⟨m', b', ?_, hstores'⟩
  refine (HmapT.insert_hash (f := fun i => strHash ((A' i).getD emptyText).1) ?_ val).trans hins
  show strHash s.1 = strHash ((A' (.key a)).getD emptyText).1
  rw [show A' (.key a) = some s from Function.update_self .., Option.getD_some]

/-- **`insert`** adds a cell with a key of its own. -/
lemma insert_yields (h : Keyed st A l b) {key : KeyArg} (hkey : key.Ok A)
    (ha : ¬ st.map.entries.Live a) (val : Option V) :
    Yields Granted (fun st' => ∃ b', Keyed st'
        (Function.update A (.key a) (some (key.content A))) (⟨a, .key a, val⟩ :: l) b')
      (st.insert malloc a key val) := by
  set s := key.content A with hs
  set A' := Function.update A (.key a) (some s) with hA'
  set B := Function.update A .param (some s) with hB
  have hnot : a ∉ l.map Cell.addr := fun hmem => ha (h.live_iff.mpr hmem)
  have hBkey : B (.key a) = none := (Function.update_of_ne (by simp) _ _).trans (h.gone a hnot)
  have hBparam : B .param = some s := Function.update_self ..
  have hBhashed : B .hashed = none := (Function.update_of_ne (by simp) _ _).trans h.hashed
  obtain ⟨m', b', hins, hstores⟩ := h.insert_map hnot s val
  refine (pass_yields h.laid hkey h.param).bind fun mem₁ h₁ => ?_
  refine (doHash_yields h₁ hBparam hBhashed).bind fun r hr => ?_
  obtain ⟨hash, mem₂⟩ := r
  obtain ⟨rfl, h₂⟩ := hr
  refine (update_yields (u := .construct (.key a) .null) h₂ ⟨hBkey, trivial⟩).bind
    fun mem₃ h₃ => ?_
  have heffect : (Update.construct (.key a) .null).effect B =
      Function.update B (.key a) (some emptyText) := rfl
  rw [heffect] at h₃
  have hparam : Function.update B (.key a) (some emptyText) .param = some s :=
    (Function.update_of_ne (by simp) _ _).trans hBparam
  refine (update_yields (u := .copyAssign (.key a) .param) h₃ ⟨?_, ?_, by simp⟩).bind
    fun mem₄ h₄ => ?_
  · rw [Function.update_self]
    exact nofun
  · rw [hparam]
    exact nofun
  -- the key has the content of the parameter, which is then destroyed
  have heffect' : (Update.copyAssign (.key a) .param).effect
      (Function.update B (.key a) (some emptyText)) = Function.update A' .param (some s) := by
    show Function.update (Function.update B (.key a) (some emptyText)) (.key a)
      (Function.update B (.key a) (some emptyText) .param) = _
    rw [hparam, Function.update_idem, hB, hA', Function.update_comm (by simp)]
  rw [heffect'] at h₄
  have hA'param : A' .param = none := (Function.update_of_ne (by simp) _ _).trans h.param
  refine (Yields.lift hins rfl : Yields _ (fun m => m = m') _).bind fun m hm => ?_
  subst hm
  refine (destroy_yields h₄ hA'param).bind fun mem₅ h₅ => Yields.pure ⟨b', h₅, hstores, ?_, ?_,
    hA'param, (Function.update_of_ne (by simp) _ _).trans h.hashed⟩
  · intro c hc
    rcases List.mem_cons.mp hc with rfl | hc
    · exact ⟨rfl, by rw [hA', Function.update_self]; exact nofun⟩
    · have hne : c.addr ≠ a := fun hca => hnot (hca ▸ List.mem_map_of_mem hc)
      rw [hA', Function.update_of_ne (by simpa using hne)]
      exact h.named c hc
  · intro x hx
    rw [List.map_cons, List.mem_cons, not_or] at hx
    rw [hA', Function.update_of_ne (by simpa using hx.1)]
    exact h.gone x hx.2

/-- **`remove`** takes a cell and its key away. -/
lemma remove_yields (h : Keyed st A l b) (ha : a ∈ l.map Cell.addr) :
    Yields Granted (fun st' => ∃ b', Keyed st' (Function.update A (.key a) none)
        (l.filter fun c => c.addr ≠ a) b') (st.remove malloc a) := by
  obtain ⟨e, s, he, hkey, hs⟩ := h.entry ha
  let _ := byContent A
  obtain ⟨m', b', hrem, -, hstores⟩ := h.stores.remove ha
  have hrem' : @HmapT.remove KeyObj V (returned (strHash s.1)) st.map (some a) = .ok m' := by
    refine (HmapT.remove_hash (f := fun i => strHash ((A i).getD emptyText).1) he ?_).trans hrem
    show strHash s.1 = strHash ((A e.key).getD emptyText).1
    rw [hkey, hs, Option.getD_some]
  refine (Yields.lift (deref_eq he) rfl : Yields _ (fun x => x = e) _).bind fun x hx => ?_
  subst hx
  rw [← hkey] at hs ⊢
  refine (doHash_yields h.laid hs h.hashed).bind fun r hr => ?_
  obtain ⟨hash, mem₁⟩ := r
  obtain ⟨rfl, h₁⟩ := hr
  refine (Yields.lift hrem' rfl : Yields _ (fun m => m = m') _).bind fun m hm => ?_
  subst hm
  have hlives : A x.key ≠ none := by
    rw [hs]
    exact nofun
  refine (update_yields (u := .destroy x.key) h₁ hlives).bind fun mem₂ h₂ =>
    Yields.pure ⟨b', h₂, ?_, ?_, ?_, ?_, ?_⟩
  · refine h.stores_of_eq hstores fun c hc => ?_
    obtain ⟨hcl, hne⟩ := List.mem_filter.mp hc
    refine ⟨hcl, Function.update_of_ne ?_ _ _⟩
    rw [hkey]
    simpa using hne
  · intro c hc
    obtain ⟨hcl, hne⟩ := List.mem_filter.mp hc
    refine ⟨(h.named c hcl).1, ?_⟩
    show Function.update A x.key none (.key c.addr) ≠ none
    rw [hkey, Function.update_of_ne (by simpa using hne)]
    exact (h.named c hcl).2
  · intro y hy
    show Function.update A x.key none (.key y) = none
    rcases eq_or_ne y a with rfl | hne
    · rw [hkey, Function.update_self]
    · rw [hkey, Function.update_of_ne (by simpa using hne)]
      refine h.gone y fun hmem => hy ?_
      obtain ⟨c, hc, rfl⟩ := List.mem_map.mp hmem
      exact List.mem_map_of_mem (List.mem_filter.mpr ⟨hc, by simpa using hne⟩)
  · show Function.update A x.key none .param = none
    rw [hkey, Function.update_of_ne (by simp), h.param]
  · show Function.update A x.key none .hashed = none
    rw [hkey, Function.update_of_ne (by simp), h.hashed]

end Keyed

/-! ## `rehash` -/

/-- The keys of the entries are constructed. -/
def KeysIn (A : Contents KeyObj) (h : Heap (HmapEntry KeyObj V)) : Prop :=
  ∀ a k v, HmapT.contents h a = some (k, v) → A k ≠ none

/-- **The loop of `rehash`** does what it does with the hashes of the contents. -/
lemma rehashFrom_yields {n newBytes fuel : ℕ} {h : Heap (HmapEntry KeyObj V)}
    {t : ℕ → Option ℕ} {p : Option ℕ} {r : Heap (HmapEntry KeyObj V) × (ℕ → Option ℕ)}
    (hmem : Laid mem A) (hh : A .hashed = none) (hkeys : KeysIn A h)
    (hok : @HmapT.rehashFrom KeyObj V (byContent A) n newBytes fuel h t p = .ok r) :
    Yields Granted (fun r' => Laid r'.1 A ∧ r'.2 = r)
      (rehashFrom malloc n newBytes fuel mem h t p) := by
  induction fuel generalizing mem h t p with
  | zero =>
      cases p with
      | none =>
          obtain rfl := Except.ok.inj hok
          exact Yields.pure ⟨hmem, rfl⟩
      | some a => exact absurd hok nofun
  | succ fuel ih =>
      cases p with
      | none =>
          obtain rfl := Except.ok.inj hok
          exact Yields.pure ⟨hmem, rfl⟩
      | some a =>
          let _ := byContent A
          rw [HmapT.rehashFrom] at hok
          obtain ⟨e, he, hok⟩ := bind_eq_ok hok
          have hcell := deref_eq_ok he
          obtain ⟨s, hs⟩ := Option.ne_none_iff_exists'.mp
            (hkeys a e.key e.data (by simp [HmapT.contents, Heap.field, hcell]))
          have hhash : HashKey.doHash e.key = strHash s.1 := by
            show strHash ((A e.key).getD emptyText).1 = _
            rw [hs, Option.getD_some]
          dsimp only at hok
          rw [hhash] at hok
          refine (Yields.lift he rfl : Yields _ (fun x => x = e) _).bind fun x hx => ?_
          subst hx
          refine (doHash_yields hmem hs hh).bind fun q hq => ?_
          obtain ⟨hash, mem₁⟩ := q
          obtain ⟨rfl, hmem₁⟩ := hq
          dsimp only
          split_ifs at hok ⊢ with hout
          obtain ⟨h₁, hassign, hok⟩ := bind_eq_ok hok
          obtain ⟨h₂, hassign', hok⟩ := bind_eq_ok hok
          refine (Yields.lift hassign rfl : Yields _ (fun x => x = h₁) _).bind fun y hy => ?_
          subst hy
          refine (Yields.lift hassign' rfl : Yields _ (fun x => x = h₂) _).bind fun y hy => ?_
          subst hy
          refine ih hmem₁ (fun b k v hb => hkeys b k v ?_) hok
          rw [← hb, HmapT.contents_assign hassign' fun _ => rfl,
            HmapT.contents_assignIf hassign fun _ => rfl]

namespace Keyed

variable {l : List (Cell KeyObj V)} {b : ℕ → List ℕ} {a : ℕ}

lemma keysIn (h : Keyed st A l b) : KeysIn A st.map.entries := by
  intro a k v hkv
  let _ := byContent A
  have hc : (⟨a, k, v⟩ : Cell KeyObj V) ∈ l := (h.stores.mem_iff _).mpr hkv
  obtain ⟨hname, hne⟩ := h.named _ hc
  have hname' : k = .key a := hname
  rw [hname']
  exact hne

/-- **`rehash`** leaves the cells alone. -/
lemma rehash_yields (h : Keyed st A l b) {os : Libc} {n : ℕ} (hos : os.Total) (hn : 0 < n)
    (hlt : n < 2 ^ 29) :
    Yields Granted (fun st' => ∃ b', Keyed st' A l b') (st.rehash malloc os n) := by
  let _ := byContent A
  obtain ⟨m', b', hreh, -, hstores⟩ := h.stores.rehash hos hn hlt
  rw [HmapT.rehash] at hreh
  obtain ⟨_, hpos, hreh⟩ := bind_eq_ok hreh
  obtain ⟨_, hmalloc, hreh⟩ := bind_eq_ok hreh
  obtain ⟨r, hloop, hreh⟩ := bind_eq_ok hreh
  obtain rfl := Except.ok.inj hreh
  refine (Yields.lift hpos trivial : Yields _ (fun _ => True) _).bind fun _ _ => ?_
  refine (Yields.lift hmalloc trivial : Yields _ (fun _ => True) _).bind fun _ _ => ?_
  refine (rehashFrom_yields h.laid h.hashed h.keysIn hloop).bind fun r' hr' => ?_
  obtain ⟨mem', h', t'⟩ := r'
  obtain ⟨hmem', rfl⟩ := hr'
  exact Yields.pure ⟨b', hmem', hstores, h.named, h.gone, h.param, h.hashed⟩

/-- **The move of the LRU queue** changes the order of the cells. -/
lemma lruMove_eq (h : Keyed st A l b) (ha : a ∈ l.map Cell.addr) :
    ∃ st' l', st.lruMove a = .ok st' ∧ (∀ c, c ∈ l' ↔ c ∈ l) ∧ Keyed st' A l' b := by
  let _ := byContent A
  obtain ⟨m₁, m₂, hdet, hatt, -, hstores⟩ := h.stores.lruMove ha
  have hmem : ∀ c, c ∈ (l.filter fun c => c.addr = a) ++ (l.filter fun c => c.addr ≠ a) ↔
      c ∈ l := by
    intro c
    rw [List.mem_append, List.mem_filter, List.mem_filter]
    by_cases hca : c.addr = a <;> simp [hca]
  refine ⟨{ st with map := m₂ }, _, ?_, hmem, h.laid, hstores, ?_, ?_, h.param, h.hashed⟩
  · rw [lruMove, hdet, ok_bind, hatt]
    rfl
  · exact fun c hc => h.named c ((hmem c).mp hc)
  · intro x hx
    refine h.gone x fun hmem' => hx ?_
    obtain ⟨c, hc, rfl⟩ := List.mem_map.mp hmem'
    exact List.mem_map_of_mem ((hmem c).mpr hc)

/-- **A call on a variable** of the caller. -/
lemma string_yields (h : Keyed st A l b) {u : Update KeyObj} (hu : u.Allowed A) {x : ℕ}
    (hx : u.target = .var x) :
    Yields Granted (fun mem' => Keyed { st with mem := mem' } (u.effect A) l b)
      (update malloc st.mem u) := by
  have hsame : ∀ i, i ≠ .var x → u.effect A i = A i := by
    intro i hi
    rw [Update.effect, hx]
    exact Function.update_of_ne hi _ _
  refine (update_yields h.laid hu).imp fun mem' hmem' => ⟨hmem', ?_, ?_, ?_, ?_, ?_⟩
  · exact h.stores_of_eq h.stores fun c hc => ⟨hc, hsame _ (by simp)⟩
  · intro c hc
    rw [hsame _ (by simp)]
    exact h.named c hc
  · intro y hy
    rw [hsame _ (by simp)]
    exact h.gone y hy
  · rw [hsame _ (by simp), h.param]
  · rw [hsame _ (by simp), h.hashed]

end Keyed

/-! ## Runs -/

/-- Calls the program may make: on its own variables, with arguments that are constructed, on
entries there are; `new` returns a free address, and a table size is in range. -/
def Op.Allowed (st : HashMapStr V) (A : Contents KeyObj) : Op V → Prop
  | .string u => u.Allowed A ∧ ∃ x, u.target = .var x
  | .insert a key _ => ¬ st.map.entries.Live a ∧ key.Ok A
  | .remove a | .lruMove a => st.map.entries.Live a
  | .rehash os n => os.Total ∧ 0 < n ∧ n < 2 ^ 29
  | .find key => key.Ok A

/-- What the objects stand for after a call. -/
def Op.effect (A : Contents KeyObj) : Op V → Contents KeyObj
  | .string u => u.effect A
  | .insert a key _ => Function.update A (.key a) (some (key.content A))
  | .remove a => Function.update A (.key a) none
  | _ => A

/-- **Every call** returns, and leaves the table in order. -/
lemma Keyed.op {l : List (Cell KeyObj V)} {b : ℕ → List ℕ} (h : Keyed st A l b) {o : Op V}
    (ho : o.Allowed st A) :
    Yields Granted (fun st' => ∃ l' b', Keyed st' (o.effect A) l' b') (o.run malloc st) := by
  cases o with
  | string u =>
      obtain ⟨hu, x, hx⟩ := ho
      exact (h.string_yields hu hx).bind fun mem' hmem' => Yields.pure ⟨l, b, hmem'⟩
  | insert a key val =>
      refine (h.insert_yields ho.2 ho.1 val).imp fun st' hst' => ?_
      obtain ⟨b', hb'⟩ := hst'
      exact ⟨_, b', hb'⟩
  | remove a =>
      refine (h.remove_yields (h.live_iff.mp ho)).imp fun st' hst' => ?_
      obtain ⟨b', hb'⟩ := hst'
      exact ⟨_, b', hb'⟩
  | rehash os n =>
      refine (h.rehash_yields ho.1 ho.2.1 ho.2.2).imp fun st' hst' => ?_
      obtain ⟨b', hb'⟩ := hst'
      exact ⟨l, b', hb'⟩
  | lruMove a =>
      obtain ⟨st', l', hok, -, hst'⟩ := h.lruMove_eq (h.live_iff.mp ho)
      exact Yields.lift hok ⟨l', b, hst'⟩
  | find key =>
      exact (h.find_yields key ho).bind fun r hr => Yields.pure ⟨l, b, hr.2⟩

/-- **The tables reached** by allowed calls whose requests for memory are met, each with what the
objects stand for.  At first no object is constructed, and the bytes where they will be are
arbitrary. -/
inductive Reached : HashMapStr V → Contents KeyObj → Prop where
  | new {os : Libc} {n : ℕ} {m : HmapT KeyObj V} (mem : Strings KeyObj) (hos : os.Total)
      (hn : 0 < n) (hlt : n < 2 ^ 29) (h : HmapT.new os n = .ok m) : Reached ⟨m, mem⟩ fun _ => none
  | op {malloc : Heap (List UInt8) → Malloc} {st st' : HashMapStr V} {A : Contents KeyObj}
      {o : Op V} (hr : Reached st A) (ho : o.Allowed st A)
      (hmet : ∀ r ∈ (o.run malloc st).log, Granted r) (h : (o.run malloc st).result = .ok st') :
      Reached st' (o.effect A)

lemma Reached.keyed (h : Reached st A) : ∃ l b, Keyed st A l b := by
  induction h with
  | new mem hos hn hlt h =>
      let _ := byContent fun _ => none
      obtain ⟨m', hnew, -, hstores⟩ := HmapT.Stores.new (K := KeyObj) (V := V) hos hn hlt
      obtain rfl := Except.ok.inj (h.symm.trans hnew)
      exact ⟨[], _, ⟨nofun, nofun⟩, hstores, nofun, fun _ _ => rfl, rfl, rfl⟩
  | op _ ho hmet h ih =>
      obtain ⟨l, b, hkeyed⟩ := ih
      obtain ⟨st₁, hok, hst₁⟩ := hkeyed.op ho hmet
      obtain rfl := Except.ok.inj (h.symm.trans hok)
      exact hst₁

/-- The entry at an address is there, and its key has the content. -/
def HasKey (st : HashMapStr V) (a : ℕ) (s : CString) : Prop :=
  st.map.entries.Live a ∧ st.mem.chars (st.mem.cStr (.key a)) = .ok s.1

lemma Keyed.hasKey_iff {l : List (Cell KeyObj V)} {b : ℕ → List ℕ} (h : Keyed st A l b) (a : ℕ) :
    st.HasKey a s ↔ A (.key a) = some s := by
  have hchars : ∀ t, A (.key a) = some t → st.mem.chars (st.mem.cStr (.key a)) = .ok t.1 :=
    fun t ht => (h.laid.shows _ t ht).terminated.chars t.2
  constructor
  · rintro ⟨hlive, hs⟩
    obtain ⟨e, t, -, -, ht⟩ := h.entry (h.live_iff.mp hlive)
    rw [hchars t ht] at hs
    rw [ht, Subtype.ext (Except.ok.inj hs)]
  · intro hs
    refine ⟨?_, hchars s hs⟩
    rw [h.live_iff]
    by_contra hout
    rw [h.gone a hout] at hs
    exact absurd hs nofun

/-- **The lookups agree.**  In every table reached, and for every C string: `find(s)` returns `NULL`
if and only if no entry has a key with this content, and otherwise an entry with such a key;
`find(string_t(s))` returns the same entry if the length of the string fits a `uint32_t` with its
`NUL`.  Every allowed call returns. -/
theorem lookups_agree (h : Reached st A) :
    (∀ s : CString, ∃ r, st.findCstr s = .ok r ∧ (r = none ↔ ∀ a, ¬ st.HasKey a s) ∧
      (∀ a, r = some a → st.HasKey a s) ∧
      ∀ malloc, s.1.length + 1 < 2 ^ 32 →
        (∀ q ∈ (st.find malloc (.text s)).log, Granted q) →
        ∃ st', (st.find malloc (.text s)).result = .ok (r, st')) ∧
    ∀ malloc (o : Op V), o.Allowed st A → (∀ q ∈ (o.run malloc st).log, Granted q) →
      ∃ st', (o.run malloc st).result = .ok st' := by
  obtain ⟨l, b, hkeyed⟩ := h.keyed
  refine ⟨fun s => ⟨_, hkeyed.findCstr_eq s, ?_, ?_, ?_⟩, ?_⟩
  · rw [hkeyed.lookup_eq_none_iff]
    exact forall_congr' fun a => not_congr (hkeyed.hasKey_iff a).symm
  · intro a ha
    exact (hkeyed.hasKey_iff a).mpr (Keyed.lookup_eq_some ha)
  · intro malloc hlt hmet
    obtain ⟨⟨r, st'⟩, hres, rfl, -⟩ := hkeyed.find_yields (.text s) hlt hmet
    exact ⟨st', hres⟩
  · intro malloc o ho hmet
    obtain ⟨st', hres, -⟩ := hkeyed.op ho hmet
    exact ⟨st', hres⟩

/-- Addresses one behind the other. -/
def upwards (h : Heap (List UInt8)) : Malloc := ⟨h.bound + 1, fun _ => 7⟩

/-- A table of one slot, before any call. -/
def oneSlot : HashMapStr ℕ :=
  ⟨⟨Heap.empty, fun _ => none, 8, none, 1, 0⟩, ⟨fun _ _ => 7, Heap.empty⟩⟩

lemma oneSlot_reached : Reached oneSlot fun _ => none :=
  .new _ zeroLibc_total Nat.zero_lt_one (by decide) (show HmapT.new zeroLibc 1 = .ok _ from rfl)

/-- A string of one byte, above 127. -/
def highByte : CString := ⟨[200], by decide⟩

/-- A key that is found by both. -/
theorem lookups_agree_one : ∃ (st st' : HashMapStr ℕ) (A : Contents KeyObj),
    Reached st A ∧ A (.key 0) = some highByte ∧ st.findCstr highByte = .ok (some 0) ∧
    (st.find upwards (.text highByte)).result = .ok (some 0, st') := by
  have h₁ : Reached _ _ := oneSlot_reached.op
    (o := .insert 0 (.text highByte) (some 5)) ⟨by decide, show 1 + 1 < 2 ^ 32 by decide⟩
    (by decide) (show (Op.run upwards _ _).result = .ok _ from rfl)
  obtain ⟨r, hfind, -, -, hagree⟩ := (lookups_agree h₁).1 highByte
  obtain rfl : r = some 0 := (Except.ok.inj hfind).symm
  obtain ⟨st', hres⟩ := hagree upwards (by decide) (by decide)
  exact ⟨_, st', _, h₁, rfl, hfind, hres⟩

/-! ## Lengths beyond `uint32_t` -/

lemma find_wrapped (hs : u32 s.1.length = 0) (malloc : Heap (List UInt8) → Malloc)
    (st : HashMapStr V) : st.find malloc (.text s) = st.find malloc (.text emptyText) := by
  have hpass : pass malloc st.mem (.text s) = pass malloc st.mem (.text emptyText) := by
    rw [pass, pass, update, update]
    show Traced.tell _ (st.mem.construct _ .param (.text s)) = _
    rw [construct_wrapped _ hs]
    rfl
  rw [find, find, hpass]

/-- The contents of the objects when the empty string is the only key. -/
def emptyKey : Contents KeyObj := Function.update (fun _ => none) (.key 0) (some emptyText)

lemma emptyKey_iff {a : ℕ} : emptyKey (.key a) = some s ↔ a = 0 ∧ s = emptyText := by
  rcases eq_or_ne a 0 with rfl | hne
  · rw [emptyKey, Function.update_self, Option.some.injEq]
    exact ⟨fun h => ⟨rfl, h.symm⟩, fun h => h.2.symm⟩
  · rw [emptyKey, Function.update_of_ne (by simpa using hne)]
    exact ⟨fun h => absurd h nofun, fun h => absurd h.1 hne⟩

lemma emptyKey_reached : ∃ st : HashMapStr ℕ, Reached st emptyKey ∧
    ∀ q ∈ (st.find upwards (.text emptyText)).log, Granted q := by
  have h₁ : Reached _ _ := oneSlot_reached.op
    (o := .insert 0 (.text emptyText) (some 5)) ⟨by decide, show 0 + 1 < 2 ^ 32 by decide⟩
    (by decide) (show (Op.run upwards _ _).result = .ok _ from rfl)
  exact ⟨_, h₁, by decide⟩

/-- **A string of `2^32` bytes is taken for the empty one** by `find(string_t(s))`, since the length
is stored in a `uint32_t`; `find(s)` compares its characters. -/
theorem lookups_differ : ∃ (st st' : HashMapStr ℕ) (A : Contents KeyObj) (s : CString),
    s.1.length = 2 ^ 32 ∧ Reached st A ∧ st.findCstr s = .ok none ∧
    (∀ q ∈ (st.find upwards (.text s)).log, Granted q) ∧
    (st.find upwards (.text s)).result = .ok (some 0, st') := by
  have hmem : (0 : UInt8) ∉ List.replicate (2 ^ 32) (97 : UInt8) :=
    fun h => absurd (List.eq_of_mem_replicate h) (by decide)
  obtain ⟨s, hlen⟩ : ∃ s : CString, s.1.length = 2 ^ 32 := ⟨⟨_, hmem⟩, List.length_replicate⟩
  have hs : s ≠ emptyText := by
    rintro rfl
    exact absurd hlen (by decide)
  obtain ⟨st, hst, hmet⟩ := emptyKey_reached
  obtain ⟨l, b, hkeyed⟩ := hst.keyed
  obtain ⟨⟨r, st'⟩, hres, rfl, -⟩ :=
    hkeyed.find_yields (.text emptyText) (show 0 + 1 < 2 ^ 32 by decide) hmet
  have hwrap := find_wrapped (s := s) (by rw [hlen]; rfl) upwards st
  refine ⟨st, st', emptyKey, s, hlen, hst, ?_, by rwa [hwrap], ?_⟩
  · rw [hkeyed.findCstr_eq s, hkeyed.lookup_eq_none_iff.mpr]
    exact fun a ha => hs (emptyKey_iff.mp ha).2
  · rw [hwrap, hres]
    cases hfound : Keyed.lookup st emptyKey b emptyText with
    | none => exact absurd (emptyKey_iff.mpr ⟨rfl, rfl⟩) (hkeyed.lookup_eq_none_iff.mp hfound 0)
    | some a =>
        obtain ⟨rfl, -⟩ := emptyKey_iff.mp (Keyed.lookup_eq_some hfound)
        exact congrArg (fun r => Except.ok (r, st')) hfound

end HashMapStr

end Axon
