import Axon.Core.Hashmap
import Axon.Library.Buckets

/-!
# What the hash table stores

The pointer structure of `hmap_t`, one lemma for each member function.

* **`HmapT.linkFields`**, **`HmapT.bucketFields`** : the two lists threaded through the entries, as
  links in the sense of `Library.Links`.
* **`HmapT.detachLink_spec`**, **`attachLinkHead_spec`**, **`insert_spec`**, **`remove_spec`**,
  **`rehashFrom_spec`** : the member functions insert into these lists and remove from them.
* **`Cell`**, **`HmapT.Stores`** : the cells a table stores, in the order of iteration, with its
  buckets; the operations on the table are operations on this list.  Keys may repeat.
-/

namespace Axon

open Library

/-- One entry of the dictionary, with its address in the table. -/
structure Cell (K V : Type) where
  addr : ℕ
  key : K
  data : Option V
deriving DecidableEq

namespace HmapT

variable {K V : Type}

/-! ## The two lists threaded through the entries -/

/-- The links of the whole list. -/
def linkFields (h : Heap (HmapEntry K V)) : Links ℕ :=
  ⟨h.field HmapEntry.linkNext, h.field HmapEntry.linkPrev⟩

/-- The links of the bucket lists. -/
def bucketFields (h : Heap (HmapEntry K V)) : Links ℕ :=
  ⟨h.field HmapEntry.next, h.field HmapEntry.prev⟩

/-- Key and value of the entries. -/
def contents (h : Heap (HmapEntry K V)) : ℕ → Option (K × Option V) :=
  h.field fun e => some (e.key, e.data)

lemma live_iff_contents {h : Heap (HmapEntry K V)} {a : ℕ} :
    h.Live a ↔ contents h a ≠ none := by
  cases ha : h.cell a with
  | none => simp [Heap.Live, contents, Heap.field, ha]
  | some e => simp [Heap.Live, contents, Heap.field, ha]

lemma contents_eq {h : Heap (HmapEntry K V)} {a : ℕ} {k : K} {v : Option V}
    (ha : contents h a = some (k, v)) : ∃ e, h.cell a = some e ∧ e.key = k ∧ e.data = v := by
  obtain ⟨e, he⟩ := Heap.live_iff.mp (live_iff_contents.mpr (by rw [ha]; simp))
  simp only [contents, Heap.field, he, Option.bind_some, Option.some.injEq, Prod.mk.injEq] at ha
  exact ⟨e, he, ha.1, ha.2⟩

section Lists

variable {m : HmapT K V} {l : List ℕ} {a : ℕ}

/-- **`detach_link`** takes the entry out of the link list and changes nothing else. -/
lemma detachLink_spec (hl : DList (linkFields m.entries) m.linkHead l)
    (hlive : ∀ b ∈ l, m.entries.Live b) (ha : a ∈ l) :
    ∃ h, m.detachLink (some a) = .ok
        { m with
          entries := h
          linkHead := if m.linkHead = some a then (linkFields m.entries).next a
            else m.linkHead } ∧
      linkFields h = (linkFields m.entries).detach a ∧
      bucketFields h = bucketFields m.entries ∧ contents h = contents m.entries := by
  obtain ⟨e, he⟩ := Heap.live_iff.mp (hlive a ha)
  have hprev : (linkFields m.entries).prev a = e.linkPrev := by simp [linkFields, Heap.field, he]
  have hnext : (linkFields m.entries).next a = e.linkNext := by simp [linkFields, Heap.field, he]
  have hp : ∀ b, e.linkPrev = some b → m.entries.Live b :=
    fun b hb => hlive b (hl.prev_mem ha (hprev.trans hb))
  have hq : ∀ b, e.linkNext = some b → m.entries.Live b :=
    fun b hb => hlive b (hl.next_mem ha (hnext.trans hb))
  refine ⟨((m.entries.writeAt e.linkPrev fun x => { x with linkNext := e.linkNext }).writeAt
    e.linkNext fun x => { x with linkPrev := e.linkPrev }).write a
    fun x => { x with linkNext := none, linkPrev := none }, ?_, ?_, ?_, ?_⟩
  · rw [hnext, detachLink, deref_eq he]
    simp only [ok_bind]
    rw [assignIf_eq hp]
    simp only [ok_bind]
    rw [assignIf_eq (by simpa using hq)]
    simp only [ok_bind]
    rw [assign_eq (by simpa using hlive a ha)]
    rfl
  · rw [Links.detach, hprev, hnext]
    apply Links.ext
    · simp only [linkFields]
      rw [Heap.field_write_eq (v := none), Heap.field_writeAt_same,
        Heap.field_writeAt_eq (v := e.linkNext) _ hp]
      all_goals first | exact fun _ => rfl | simpa using hlive a ha
    · simp only [linkFields]
      rw [Heap.field_write_eq (v := none), Heap.field_writeAt_eq (v := e.linkPrev),
        Heap.field_writeAt_same]
      all_goals first | exact fun _ => rfl | simpa using hlive a ha | simpa using hq
  · simp (disch := exact fun _ => rfl) only [bucketFields, Heap.field_write_same,
      Heap.field_writeAt_same]
  · simp (disch := exact fun _ => rfl) only [contents, Heap.field_write_same,
      Heap.field_writeAt_same]

/-- **`attach_link_head`** puts the entry in front of the link list and changes nothing else. -/
lemma attachLinkHead_spec (hl : DList (linkFields m.entries) m.linkHead l)
    (hlive : ∀ b ∈ l, m.entries.Live b) (ha : m.entries.Live a) (hnot : a ∉ l) :
    ∃ h, m.attachLinkHead (some a) = .ok { m with entries := h, linkHead := some a } ∧
      linkFields h = (linkFields m.entries).insertHead m.linkHead a ∧
      bucketFields h = bucketFields m.entries ∧ contents h = contents m.entries := by
  cases hhead : m.linkHead with
  | none =>
      refine ⟨(m.entries.write a fun x => { x with linkPrev := none }).write a
        fun x => { x with linkNext := none }, ?_, ?_, ?_, ?_⟩
      · rw [attachLinkHead, assign_eq ha, hhead]
        simp only [ok_bind]
        rw [assign_eq (by simpa using ha)]
        rfl
      · apply Links.ext
        · simp only [linkFields, Links.insertHead]
          rw [Heap.field_write_eq (v := none), Heap.field_write_same]
          all_goals first | exact fun _ => rfl | simpa using ha
        · simp only [linkFields, Links.insertHead, setAt_none]
          rw [Heap.field_write_same, Heap.field_write_eq (v := none) _ ha]
          all_goals exact fun _ => rfl
      · simp (disch := exact fun _ => rfl) only [bucketFields, Heap.field_write_same]
      · simp (disch := exact fun _ => rfl) only [contents, Heap.field_write_same]
  | some b =>
      have hb : b ∈ l := hl.head_mem hhead
      have hne : a ≠ b := fun he => hnot (he ▸ hb)
      refine ⟨((m.entries.write a fun x => { x with linkPrev := none }).write a
        fun x => { x with linkNext := some b }).write b
        fun x => { x with linkPrev := some a }, ?_, ?_, ?_, ?_⟩
      · rw [attachLinkHead, assign_eq ha, hhead]
        simp only [ok_bind]
        rw [assign_eq (by simpa using ha)]
        simp only [ok_bind]
        rw [assign_eq (by simpa using hlive b hb)]
        rfl
      · apply Links.ext
        · simp only [linkFields, Links.insertHead]
          rw [Heap.field_write_same, Heap.field_write_eq (v := some b), Heap.field_write_same]
          all_goals first | exact fun _ => rfl | simpa using ha
        · simp only [linkFields, Links.insertHead, setAt_some]
          rw [Heap.field_write_eq (v := some a), Heap.field_write_same,
            Heap.field_write_eq (v := none) _ ha, Function.update_comm hne]
          all_goals first | exact fun _ => rfl | simpa using hlive b hb
      · simp (disch := exact fun _ => rfl) only [bucketFields, Heap.field_write_same]
      · simp (disch := exact fun _ => rfl) only [contents, Heap.field_write_same]

variable {b : List ℕ} {s : ℕ} {e : HmapEntry K V}

lemma tableAt_eq (hbytes : m.tableBytes = 8 * m.nslot) (hs : s < m.nslot) :
    m.tableAt s = .ok (m.table s) := if_pos (by omega)

lemma setTable_eq (hbytes : m.tableBytes = 8 * m.nslot) (hs : s < m.nslot) (p : Option ℕ) :
    m.setTable s p = .ok { m with table := Function.update m.table s p } := if_pos (by omega)

/-- Putting an entry in front of a bucket list touches this list only. -/
lemma pushBucket_fields {h : Heap (HmapEntry K V)} {a : ℕ} {p : Option ℕ} (ha : h.Live a)
    (hp : ∀ x, p = some x → h.Live x) :
    linkFields ((h.writeAt p fun x => { x with prev := some a }).write a
        fun x => { x with next := p, prev := none }) = linkFields h ∧
      contents ((h.writeAt p fun x => { x with prev := some a }).write a
        fun x => { x with next := p, prev := none }) = contents h ∧
      bucketFields ((h.writeAt p fun x => { x with prev := some a }).write a
        fun x => { x with next := p, prev := none }) = (bucketFields h).insertHead p a := by
  refine ⟨?_, ?_, Links.ext ?_ ?_⟩
  · simp (disch := exact fun _ => rfl) only [linkFields, Heap.field_write_same,
      Heap.field_writeAt_same]
  · simp (disch := exact fun _ => rfl) only [contents, Heap.field_write_same,
      Heap.field_writeAt_same]
  · simp only [bucketFields, Links.insertHead]
    rw [Heap.field_write_eq (v := p), Heap.field_writeAt_same]
    all_goals first | exact fun _ => rfl | simpa using ha
  · simp only [bucketFields, Links.insertHead]
    rw [Heap.field_write_eq (v := none), Heap.field_writeAt_eq (v := some a) _ hp]
    all_goals first | exact fun _ => rfl | simpa using ha

/-- The loop of a caller visits the cells in order. -/
lemma walkFrom_eq {h : Heap (HmapEntry K V)} {p : Option ℕ} {l : List ℕ} {fuel : ℕ}
    (hl : Chain (linkFields h).next p l) (hlive : ∀ x ∈ l, h.Live x) (hfuel : l.length ≤ fuel) :
    walkFrom h fuel p = .ok l := by
  induction l generalizing p fuel with
  | nil =>
      obtain rfl := hl
      rw [walkFrom]
  | cons a l ih =>
      obtain ⟨rfl, hnext⟩ := hl
      obtain ⟨e, he⟩ := Heap.live_iff.mp (hlive a List.mem_cons_self)
      obtain ⟨fuel, rfl⟩ := Nat.exists_eq_succ_of_ne_zero
        (show fuel ≠ 0 from fun h0 => by simp [h0] at hfuel)
      have hrest : walkFrom h fuel e.linkNext = .ok l := ih
        (by simpa [linkFields, Heap.field, he] using hnext)
        (fun x hx => hlive x (List.mem_cons_of_mem a hx)) (by simpa using hfuel)
      rw [walkFrom, deref_eq he, ok_bind, hrest, ok_bind]
      rfl

/-- The loop of `find` stops at the first node with the key. -/
lemma findFrom_eq [DecidableEq K] {h : Heap (HmapEntry K V)} {k : K} {p : Option ℕ} {l : List ℕ}
    {fuel : ℕ} (hl : Chain (bucketFields h).next p l) (hlive : ∀ x ∈ l, h.Live x)
    (hfuel : l.length ≤ fuel) :
    findFrom h k fuel p = .ok (l.find? fun x => (contents h x).map Prod.fst = some k) := by
  induction l generalizing p fuel with
  | nil =>
      obtain rfl := hl
      rw [findFrom]
      rfl
  | cons a l ih =>
      obtain ⟨rfl, hnext⟩ := hl
      obtain ⟨e, he⟩ := Heap.live_iff.mp (hlive a List.mem_cons_self)
      obtain ⟨fuel, rfl⟩ := Nat.exists_eq_succ_of_ne_zero
        (show fuel ≠ 0 from fun h0 => by simp [h0] at hfuel)
      have hrest : findFrom h k fuel e.next = .ok _ := ih
        (by simpa [bucketFields, Heap.field, he] using hnext)
        (fun x hx => hlive x (List.mem_cons_of_mem a hx)) (by simpa using hfuel)
      rw [findFrom, deref_eq he, ok_bind, hrest]
      by_cases hk : e.key = k
      · simp [contents, Heap.field, he, hk]
      · simp [contents, Heap.field, he, hk]

variable [HashKey K]

lemma slotOf_eq (hn : 0 < m.nslot) (k : K) :
    m.slotOf k = .ok (HashKey.doHash k % m.nslot) :=
  if_neg (by omega)

/-- **`insert`** puts the new entry in front of the bucket list of its slot and of the link list. -/
lemma insert_spec {k : K} (v : Option V) (hn : 0 < m.nslot) (hbytes : m.tableBytes = 8 * m.nslot)
    (hs : HashKey.doHash k % m.nslot = s)
    (hl : DList (linkFields m.entries) m.linkHead l) (hlive : ∀ x ∈ l, m.entries.Live x)
    (hb : DList (bucketFields m.entries) (m.table s) b) (hblive : ∀ x ∈ b, m.entries.Live x)
    (ha : ¬ m.entries.Live a) :
    ∃ h, m.insert a k v = .ok
        { m with
          entries := h
          table := Function.update m.table s (some a)
          linkHead := some a
          size := u32 (m.size + 1) } ∧
      linkFields h = (linkFields m.entries).insertHead m.linkHead a ∧
      bucketFields h = (bucketFields m.entries).insertHead (m.table s) a ∧
      contents h = Function.update (contents m.entries) a (some (k, v)) := by
  have hslt : s < m.nslot := hs ▸ Nat.mod_lt _ hn
  have hhead : ∀ x, m.table s = some x → m.entries.Live x :=
    fun x hx => hblive x (hb.head_mem hx)
  set h₁ := (m.entries.writeAt (m.table s) fun x => { x with prev := some a }).put a
    { data := v, key := k, next := m.table s, prev := none, linkNext := none, linkPrev := none }
    with hh₁
  have hnone : m.entries.cell a = none := not_not.mp ha
  have hlink : linkFields h₁ = linkFields m.entries := by
    apply Links.ext
    · simp (disch := exact fun _ => rfl) only [linkFields, hh₁, Heap.field_put,
        Heap.field_writeAt_same]
      exact Function.update_eq_self_iff.mpr (by simp [Heap.field, hnone])
    · simp (disch := exact fun _ => rfl) only [linkFields, hh₁, Heap.field_put,
        Heap.field_writeAt_same]
      exact Function.update_eq_self_iff.mpr (by simp [Heap.field, hnone])
  have hlive₁ : ∀ x, m.entries.Live x → h₁.Live x := fun x hx => by simp [hh₁, hx]
  obtain ⟨h, hattach, hlinks, hbuckets, hcontents⟩ := attachLinkHead_spec
    (m := { m with entries := h₁, table := Function.update m.table s (some a) }) (a := a) (l := l)
    (by rw [hlink]; exact hl) (fun x hx => hlive₁ x (hlive x hx)) (by simp [hh₁])
    (fun hmem => ha (hlive a hmem))
  refine ⟨h, ?_, ?_, ?_, ?_⟩
  · rw [insert, slotOf_eq hn, ok_bind, hs, tableAt_eq hbytes hslt, ok_bind, assignIf_eq hhead,
      ok_bind]
    dsimp only
    rw [← hh₁, setTable_eq (m := { m with entries := h₁ }) hbytes hslt, ok_bind, hattach]
    rfl
  · rw [hlinks, hlink]
  · rw [hbuckets]
    apply Links.ext
    · simp (disch := exact fun _ => rfl) only [bucketFields, Links.insertHead, hh₁,
        Heap.field_put, Heap.field_writeAt_same]
    · simp only [bucketFields, Links.insertHead, hh₁]
      rw [Heap.field_put, Heap.field_writeAt_eq (v := some a) _ hhead]
      exact fun _ => rfl
  · rw [hcontents]
    simp (disch := exact fun _ => rfl) only [contents, hh₁, Heap.field_put,
      Heap.field_writeAt_same]

/-- **`detach`** takes the entry out of both of its lists. -/
lemma detach_spec (hn : 0 < m.nslot) (hbytes : m.tableBytes = 8 * m.nslot)
    (he : m.entries.cell a = some e) (hs : HashKey.doHash e.key % m.nslot = s)
    (hl : DList (linkFields m.entries) m.linkHead l) (hlive : ∀ x ∈ l, m.entries.Live x)
    (ha : a ∈ l)
    (hb : DList (bucketFields m.entries) (m.table s) b) (hblive : ∀ x ∈ b, m.entries.Live x)
    (hab : a ∈ b) :
    ∃ h, m.detach (some a) = .ok
        { m with
          entries := h
          table := Function.update m.table s
            (if m.table s = some a then (bucketFields m.entries).next a else m.table s)
          linkHead := if m.linkHead = some a then (linkFields m.entries).next a
            else m.linkHead
          size := u32 (m.size + (2 ^ 32 - 1)) } ∧
      linkFields h = (linkFields m.entries).detach a ∧
      bucketFields h = (bucketFields m.entries).detach a ∧ contents h = contents m.entries := by
  have hslt : s < m.nslot := hs ▸ Nat.mod_lt _ hn
  have hprev : (bucketFields m.entries).prev a = e.prev := by simp [bucketFields, Heap.field, he]
  have hnext : (bucketFields m.entries).next a = e.next := by simp [bucketFields, Heap.field, he]
  have hp : ∀ x, e.prev = some x → m.entries.Live x :=
    fun x hx => hblive x (hb.prev_mem hab (hprev.trans hx))
  have hq : ∀ x, e.next = some x → m.entries.Live x :=
    fun x hx => hblive x (hb.next_mem hab (hnext.trans hx))
  set h₁ := ((m.entries.writeAt e.prev fun x => { x with next := e.next }).writeAt
    e.next fun x => { x with prev := e.prev }).write a
    fun x => { x with next := none, prev := none } with hh₁
  have hlink : linkFields h₁ = linkFields m.entries := by
    simp (disch := exact fun _ => rfl) only [linkFields, hh₁, Heap.field_write_same,
      Heap.field_writeAt_same]
  have hlive₁ : ∀ x, h₁.Live x ↔ m.entries.Live x := fun x => by simp [hh₁]
  obtain ⟨h, hdetach, hlinks, hbuckets, hcontents⟩ := detachLink_spec
    (m := { m with
      entries := h₁
      table := Function.update m.table s
        (if m.table s = some a then e.next else m.table s) }) (a := a) (l := l)
    (by rw [hlink]; exact hl) (fun x hx => (hlive₁ x).mpr (hlive x hx)) ha
  refine ⟨h, ?_, ?_, ?_, ?_⟩
  · rw [hnext, detach, deref_eq he, ok_bind, slotOf_eq hn, ok_bind, hs]
    dsimp only
    rw [assignIf_eq hp, ok_bind, assignIf_eq (by simpa using hq), ok_bind,
      tableAt_eq hbytes hslt, ok_bind]
    have htable : (if m.table s = some a then m.setTable s e.next else .ok m) = .ok
        { m with
          table := Function.update m.table s
            (if m.table s = some a then e.next else m.table s) } := by
      by_cases hhead : m.table s = some a
      · rw [if_pos hhead, if_pos hhead, setTable_eq hbytes hslt]
      · rw [if_neg hhead, if_neg hhead, Function.update_eq_self]
    rw [htable, ok_bind, assign_eq (by simpa using hlive a ha), ok_bind, ← hh₁, hdetach, hlink]
    rfl
  · rw [hlinks, hlink]
  · rw [hbuckets, Links.detach, hprev, hnext]
    apply Links.ext
    · simp only [bucketFields, hh₁]
      rw [Heap.field_write_eq (v := none), Heap.field_writeAt_same,
        Heap.field_writeAt_eq (v := e.next) _ hp]
      all_goals first | exact fun _ => rfl | simpa using hlive a ha
    · simp only [bucketFields, hh₁]
      rw [Heap.field_write_eq (v := none), Heap.field_writeAt_eq (v := e.prev),
        Heap.field_writeAt_same]
      all_goals first | exact fun _ => rfl | simpa using hlive a ha | simpa using hq
  · rw [hcontents]
    simp (disch := exact fun _ => rfl) only [contents, hh₁, Heap.field_write_same,
      Heap.field_writeAt_same]

/-- **`remove`** takes the entry out of both of its lists and gives it back; its links are null
already when it is deleted. -/
lemma remove_spec (hn : 0 < m.nslot) (hbytes : m.tableBytes = 8 * m.nslot)
    (he : m.entries.cell a = some e) (hs : HashKey.doHash e.key % m.nslot = s)
    (hl : DList (linkFields m.entries) m.linkHead l) (hlive : ∀ x ∈ l, m.entries.Live x)
    (ha : a ∈ l)
    (hb : DList (bucketFields m.entries) (m.table s) b) (hblive : ∀ x ∈ b, m.entries.Live x)
    (hab : a ∈ b) :
    ∃ h, m.remove (some a) = .ok
        { m with
          entries := h
          table := Function.update m.table s
            (if m.table s = some a then (bucketFields m.entries).next a else m.table s)
          linkHead := if m.linkHead = some a then (linkFields m.entries).next a
            else m.linkHead
          size := u32 (m.size + (2 ^ 32 - 1)) } ∧
      linkFields h = (linkFields m.entries).detach a ∧
      bucketFields h = (bucketFields m.entries).detach a ∧
      contents h = Function.update (contents m.entries) a none := by
  obtain ⟨h, hdet, hlinks, hbuckets, hcontents⟩ :=
    detach_spec hn hbytes he hs hl hlive ha hb hblive hab
  have hlive' : h.Live a := by
    rw [live_iff_contents, hcontents, ← live_iff_contents]
    exact hlive a ha
  refine ⟨h.free a, ?_, ?_, ?_, ?_⟩
  · rw [remove, hdet, ok_bind, release_eq hlive', ok_bind]
    rfl
  · rw [← hlinks]
    apply Links.ext
    · exact Heap.field_free_of_none
        ((congrFun (congrArg Links.next hlinks) a).trans (Function.update_self ..))
    · exact Heap.field_free_of_none
        ((congrFun (congrArg Links.prev hlinks) a).trans (Function.update_self ..))
  · rw [← hbuckets]
    apply Links.ext
    · exact Heap.field_free_of_none
        ((congrFun (congrArg Links.next hbuckets) a).trans (Function.update_self ..))
    · exact Heap.field_free_of_none
        ((congrFun (congrArg Links.prev hbuckets) a).trans (Function.update_self ..))
  · rw [← hcontents]
    exact Heap.field_free

/-- The slot of the entry at an address, in a table of `n` slots. -/
def slotIn (h : Heap (HmapEntry K V)) (n x : ℕ) : Option ℕ :=
  (contents h x).map fun c => HashKey.doHash c.1 % n

/-- **The loop of `rehash`** puts each entry it meets in front of its new bucket. -/
lemma rehashFrom_spec {n fuel : ℕ} {h : Heap (HmapEntry K V)} {t : ℕ → Option ℕ} {p : Option ℕ}
    {b : ℕ → List ℕ} (hn : 0 < n)
    (hl : Chain (linkFields h).next p l) (hlive : ∀ x ∈ l, h.Live x) (hfuel : l.length ≤ fuel)
    (hb : ∀ s < n, DList (bucketFields h) (t s) (b s))
    (hslot : ∀ s < n, ∀ x ∈ b s, slotIn h n x = some s ∧ x ∉ l) :
    ∃ h' t', rehashFrom n (8 * n) fuel h t p = .ok (h', t') ∧
      linkFields h' = linkFields h ∧ contents h' = contents h ∧
      ∀ s < n, DList (bucketFields h') (t' s)
        ((l.filter fun x => slotIn h n x = some s).reverse ++ b s) := by
  induction l generalizing h t p fuel b with
  | nil =>
      obtain rfl := hl
      exact ⟨h, t, by rw [rehashFrom], rfl, rfl, hb⟩
  | cons a l ih =>
      have hnd := hl.nodup
      obtain ⟨rfl, hnext⟩ := hl
      obtain ⟨e, he⟩ := Heap.live_iff.mp (hlive a List.mem_cons_self)
      obtain ⟨fuel, rfl⟩ := Nat.exists_eq_succ_of_ne_zero
        (show fuel ≠ 0 from fun h0 => by simp [h0] at hfuel)
      set s := HashKey.doHash e.key % n with hs
      have hslt : s < n := Nat.mod_lt _ hn
      have ha : slotIn h n a = some s := by simp [slotIn, contents, Heap.field, he, hs]
      have hnot : ∀ s' < n, a ∉ b s' :=
        fun s' hs' hmem => (hslot s' hs' a hmem).2 List.mem_cons_self
      have hblive : ∀ x, t s = some x → h.Live x := by
        intro x hx
        have hslotx := (hslot s hslt x ((hb s hslt).head_mem hx)).1
        rw [live_iff_contents]
        exact fun hnone => by simp [slotIn, hnone] at hslotx
      set h₁ := (h.writeAt (t s) fun x => { x with prev := some a }).write a
        fun x => { x with next := t s, prev := none } with hh₁
      obtain ⟨hlinks, hcontents, hbuckets⟩ :=
        pushBucket_fields (hlive a List.mem_cons_self) hblive
      rw [← hh₁] at hlinks hcontents hbuckets
      have hslotIn : ∀ x, slotIn h₁ n x = slotIn h n x := fun x => by rw [slotIn, slotIn, hcontents]
      obtain ⟨h', t', hrun, hlinks', hcontents', hb'⟩ := ih (h := h₁) (p := e.linkNext)
        (t := Function.update t s (some a)) (b := Function.update b s (a :: b s))
        (by rw [hlinks]; simpa [linkFields, Heap.field, he] using hnext)
        (fun x hx => by
          rw [live_iff_contents, hcontents, ← live_iff_contents]
          exact hlive x (List.mem_cons_of_mem a hx))
        (Nat.le_of_succ_le_succ hfuel)
        (by
          rw [hbuckets]
          exact DList.insertHead_bucket hb hslt hnot fun s' hs' hne x hx hxs => hne
            (Option.some.inj ((hslot s' hs' x hx).1.symm.trans (hslot s hslt x hxs).1)))
        (by
          intro s' hs' x hx
          rw [hslotIn]
          rcases mem_update_cons.mp hx with ⟨rfl, rfl⟩ | hx
          · exact ⟨ha, (List.nodup_cons.mp hnd).1⟩
          · exact ⟨(hslot s' hs' x hx).1,
              fun hmem => (hslot s' hs' x hx).2 (List.mem_cons_of_mem a hmem)⟩)
      refine ⟨h', t', ?_, hlinks'.trans hlinks, hcontents'.trans hcontents, ?_⟩
      · rw [rehashFrom, deref_eq he, ok_bind, ← hs]
        dsimp only
        rw [if_neg (by omega), assignIf_eq hblive, ok_bind,
          assign_eq (by simpa using hlive a List.mem_cons_self), ok_bind, ← hh₁, hrun]
      · intro s' hs'
        have hchain := hb' s' hs'
        simp only [hslotIn] at hchain
        rcases eq_or_ne s' s with rfl | hne
        · rw [Function.update_self] at hchain
          simpa [List.filter_cons, ha] using hchain
        · rw [Function.update_of_ne hne] at hchain
          simpa [List.filter_cons, ha, hne.symm] using hchain

end Lists

/-! ## The table stores the cells -/

section Stores

variable [HashKey K]

/-- **The invariant**: the table stores the cells `l`, and the entries of slot `s` are the nodes
`b s`, each list in its order.  Keys may repeat. -/
structure Stores (m : HmapT K V) (l : List (Cell K V)) (b : ℕ → List ℕ) : Prop where
  nslot_pos : 0 < m.nslot
  tableBytes : m.tableBytes = 8 * m.nslot
  mem_iff : ∀ c : Cell K V, c ∈ l ↔ contents m.entries c.addr = some (c.key, c.data)
  link : DList (linkFields m.entries) m.linkHead (l.map Cell.addr)
  bucket : ∀ s < m.nslot, DList (bucketFields m.entries) (m.table s) (b s)
  bucket_mem : ∀ s < m.nslot, ∀ a,
    a ∈ b s ↔ ∃ c ∈ l, c.addr = a ∧ HashKey.doHash c.key % m.nslot = s
  size : m.size = u32 l.length

namespace Stores

variable {m : HmapT K V} {l : List (Cell K V)} {b : ℕ → List ℕ} {a : ℕ} {c : Cell K V}

lemma live_iff (h : Stores m l b) : m.entries.Live a ↔ a ∈ l.map Cell.addr := by
  rw [live_iff_contents, Option.ne_none_iff_exists', List.mem_map]
  constructor
  · rintro ⟨⟨k, v⟩, hkv⟩
    exact ⟨⟨a, k, v⟩, (h.mem_iff _).mpr hkv, rfl⟩
  · rintro ⟨c, hc, rfl⟩
    exact ⟨_, (h.mem_iff c).mp hc⟩

lemma live_of_mem (h : Stores m l b) : ∀ x ∈ l.map Cell.addr, m.entries.Live x :=
  fun _ hx => h.live_iff.mpr hx

lemma live_of_bucket (h : Stores m l b) {s : ℕ} (hs : s < m.nslot) :
    ∀ x ∈ b s, m.entries.Live x := by
  intro x hx
  obtain ⟨c, hc, rfl, -⟩ := (h.bucket_mem s hs x).mp hx
  exact h.live_of_mem _ (List.mem_map_of_mem hc)

/-- An address holds one cell. -/
lemma eq_of_addr (h : Stores m l b) {c' : Cell K V} (hc : c ∈ l) (hc' : c' ∈ l)
    (ha : c.addr = c'.addr) : c = c' := by
  have hkv := ((h.mem_iff c).mp hc).symm.trans (ha ▸ (h.mem_iff c').mp hc')
  simp only [Option.some.injEq, Prod.mk.injEq] at hkv
  cases c
  cases c'
  simp_all

lemma entry_of_mem (h : Stores m l b) (hc : c ∈ l) :
    ∃ e, m.entries.cell c.addr = some e ∧ e.key = c.key ∧ e.data = c.data :=
  contents_eq ((h.mem_iff c).mp hc)

lemma length_le (h : Stores m l b) : l.length ≤ m.entries.bound := by
  rw [← List.length_map Cell.addr]
  exact Heap.length_le_bound h.link.nodup h.live_of_mem

/-- An entry is in one bucket. -/
lemma notMem_bucket (h : Stores m l b) {s t : ℕ} (hs : s < m.nslot) (ht : t < m.nslot)
    (hts : t ≠ s) (hx : a ∈ b t) : a ∉ b s := by
  intro hxs
  obtain ⟨c, hc, rfl, hct⟩ := (h.bucket_mem t ht a).mp hx
  obtain ⟨c', hc', haddr, hcs⟩ := (h.bucket_mem s hs _).mp hxs
  obtain rfl := h.eq_of_addr hc' hc haddr
  exact hts (hct.symm.trans hcs)

/-- A new table stores nothing. -/
lemma new {os : Libc} {n : ℕ} (hos : os.Total) (hn : 0 < n) (hlt : n < 2 ^ 29) :
    ∃ m : HmapT K V, HmapT.new os n = .ok m ∧ m.nslot = n ∧ Stores m [] fun _ => [] := by
  have hbytes : u32 (n * 8) = 8 * n := by rw [u32_of_lt (by omega), Nat.mul_comm]
  have hnew : HmapT.new os n =
      .ok (⟨Heap.empty, fun _ => none, u32 (n * 8), none, n, 0⟩ : HmapT K V) := by
    rw [HmapT.new, rtAssert_of_pos (hos.malloc _)]
    rfl
  exact ⟨_, hnew, rfl, hn, hbytes, fun c => by simp [contents, Heap.field, Heap.empty], DList.nil,
    fun _ _ => DList.nil, fun s _ a => by simp, rfl⟩

/-- **Insertion** puts the cell in front, in its bucket as well. -/
lemma insert_bucket (h : Stores m l b) (ha : ¬ m.entries.Live a) {k : K} (v : Option V) {s : ℕ}
    (hs : s = HashKey.doHash k % m.nslot) :
    ∃ m', m.insert a k v = .ok m' ∧ m'.nslot = m.nslot ∧
      Stores m' (⟨a, k, v⟩ :: l) (Function.update b s (a :: b s)) := by
  have hslt : s < m.nslot := hs ▸ Nat.mod_lt _ h.nslot_pos
  have hnot : a ∉ l.map Cell.addr := fun hmem => ha (h.live_of_mem a hmem)
  have hbnot : ∀ t < m.nslot, a ∉ b t := fun t ht hmem => ha (h.live_of_bucket ht a hmem)
  obtain ⟨h', hins, hlinks, hbuckets, hcontents⟩ := insert_spec v h.nslot_pos h.tableBytes hs.symm
    h.link h.live_of_mem (h.bucket s hslt) (h.live_of_bucket hslt) ha
  refine ⟨_, hins, rfl, ?_⟩
  constructor
  · exact h.nslot_pos
  · exact h.tableBytes
  · intro c
    simp only [hcontents, List.mem_cons]
    rcases eq_or_ne c.addr a with hca | hca
    · rw [hca, Function.update_self]
      have hcl : c ∉ l := fun hc => hnot (hca ▸ List.mem_map_of_mem hc)
      cases c
      simp_all [eq_comm]
    · rw [Function.update_of_ne hca, ← h.mem_iff]
      have hne : c ≠ ⟨a, k, v⟩ := fun he => hca (by rw [he])
      simp [hne]
  · simp only [hlinks]
    exact h.link.insertHead hnot
  · simp only [hbuckets]
    exact DList.insertHead_bucket h.bucket hslt hbnot fun t ht hts x hx =>
      h.notMem_bucket hslt ht hts hx
  · intro t ht x
    simp only [List.mem_cons, exists_eq_or_imp]
    rw [← h.bucket_mem t ht x, ← hs, mem_update_cons]
    simp [eq_comm]
  · simp only [List.length_cons, h.size, u32]
    omega

lemma insert (h : Stores m l b) (ha : ¬ m.entries.Live a) (k : K) (v : Option V) :
    ∃ m' b', m.insert a k v = .ok m' ∧ m'.nslot = m.nslot ∧ Stores m' (⟨a, k, v⟩ :: l) b' := by
  obtain ⟨m', hrun, hslot, h'⟩ := h.insert_bucket ha v rfl
  exact ⟨m', _, hrun, hslot, h'⟩

/-- The list without the cell at an address is the list of addresses without it. -/
lemma map_filter_addr (h : Stores m l b) (a : ℕ) :
    (l.filter fun c => c.addr ≠ a).map Cell.addr = (l.map Cell.addr).erase a := by
  rw [h.link.nodup.erase_eq_filter, List.filter_map]
  congr 1
  exact List.filter_congr fun c _ => by rw [Bool.eq_iff_iff]; simp

/-- **Removal** takes the cell out in its place, and gives the entry back. -/
lemma remove_bucket (h : Stores m l b) (hc : c ∈ l) {s : ℕ}
    (hs : s = HashKey.doHash c.key % m.nslot) :
    ∃ m', m.remove (some c.addr) = .ok m' ∧ m'.nslot = m.nslot ∧
      Stores m' (l.filter fun c' => c'.addr ≠ c.addr)
        (Function.update b s ((b s).erase c.addr)) := by
  have ha : c.addr ∈ l.map Cell.addr := List.mem_map_of_mem hc
  obtain ⟨e, he, hkey, -⟩ := h.entry_of_mem hc
  have hslt : s < m.nslot := hs ▸ Nat.mod_lt _ h.nslot_pos
  have hab : c.addr ∈ b s := (h.bucket_mem s hslt _).mpr ⟨c, hc, rfl, hs.symm⟩
  obtain ⟨h', hrem, hlinks, hbuckets, hcontents⟩ := remove_spec h.nslot_pos h.tableBytes he
    (by rw [hkey, hs]) h.link h.live_of_mem ha (h.bucket s hslt) (h.live_of_bucket hslt) hab
  refine ⟨_, hrem, rfl, ?_⟩
  constructor
  · exact h.nslot_pos
  · exact h.tableBytes
  · intro c'
    simp only [hcontents, List.mem_filter, decide_eq_true_eq]
    rcases eq_or_ne c'.addr c.addr with hca | hca
    · simp [hca]
    · rw [Function.update_of_ne hca, ← h.mem_iff]
      simp [hca]
  · simp only [hlinks, h.map_filter_addr]
    exact h.link.detach ha
  · intro t ht
    simp only [hbuckets]
    rcases eq_or_ne t s with rfl | hts
    · rw [Function.update_self, Function.update_self]
      exact (h.bucket _ ht).detach hab
    · rw [Function.update_of_ne hts, Function.update_of_ne hts]
      have hframe : ∀ x ∈ b t, x ∉ b s := fun x hx => h.notMem_bucket hslt ht hts hx
      exact (h.bucket t ht).congr
        (fun x hx => ((h.bucket s hslt).detach_frame hab (hframe x hx)).1)
        (fun x hx => ((h.bucket s hslt).detach_frame hab (hframe x hx)).2)
  · intro t ht x
    have hmem : (∃ c' ∈ l.filter fun c' => c'.addr ≠ c.addr,
        c'.addr = x ∧ HashKey.doHash c'.key % m.nslot = t) ↔ x ≠ c.addr ∧ x ∈ b t := by
      rw [h.bucket_mem t ht x]
      simp only [List.mem_filter, decide_eq_true_eq]
      constructor
      · rintro ⟨c', ⟨hc', hne⟩, rfl, hslot⟩
        exact ⟨hne, c', hc', rfl, hslot⟩
      · rintro ⟨hne, c', hc', rfl, hslot⟩
        exact ⟨c', ⟨hc', hne⟩, rfl, hslot⟩
    rw [hmem]
    rcases eq_or_ne t s with rfl | hts
    · rw [Function.update_self, (h.bucket _ ht).nodup.mem_erase_iff]
    · rw [Function.update_of_ne hts]
      exact ⟨fun hx => ⟨fun hxc => h.notMem_bucket hslt ht hts (hxc ▸ hx) hab, hx⟩,
        fun hx => hx.2⟩
  · have hlen := congrArg List.length (h.map_filter_addr c.addr)
    rw [List.length_map, List.length_erase_of_mem ha, List.length_map] at hlen
    have hpos : 0 < l.length := List.length_pos_of_mem hc
    simp only [h.size, hlen, u32]
    omega

lemma remove (h : Stores m l b) (ha : a ∈ l.map Cell.addr) :
    ∃ m' b', m.remove (some a) = .ok m' ∧ m'.nslot = m.nslot ∧
      Stores m' (l.filter fun c => c.addr ≠ a) b' := by
  obtain ⟨c, hc, rfl⟩ := List.mem_map.mp ha
  obtain ⟨m', hrun, hslot, h'⟩ := h.remove_bucket hc rfl
  exact ⟨m', _, hrun, hslot, h'⟩

/-- **The move of the LRU queue** puts the cell in front and leaves the buckets alone. -/
lemma lruMove (h : Stores m l b) (ha : a ∈ l.map Cell.addr) :
    ∃ m₁ m₂, m.detachLink (some a) = .ok m₁ ∧ m₁.attachLinkHead (some a) = .ok m₂ ∧
      m₂.nslot = m.nslot ∧
      Stores m₂ ((l.filter fun c => c.addr = a) ++ l.filter fun c => c.addr ≠ a) b := by
  obtain ⟨h₁, hdet, hlinks₁, hbuckets₁, hcontents₁⟩ := detachLink_spec h.link h.live_of_mem ha
  have hlink₁ := h.link.detach ha
  rw [← hlinks₁] at hlink₁
  have hlive₁ : ∀ x, h₁.Live x ↔ m.entries.Live x := fun x => by
    rw [live_iff_contents, live_iff_contents, hcontents₁]
  obtain ⟨h₂, hatt, hlinks₂, hbuckets₂, hcontents₂⟩ := attachLinkHead_spec
    (m := { m with
      entries := h₁
      linkHead := if m.linkHead = some a then (linkFields m.entries).next a else m.linkHead })
    hlink₁ (fun x hx => (hlive₁ x).mpr (h.live_of_mem x (List.mem_of_mem_erase hx)))
    ((hlive₁ a).mpr (h.live_of_mem a ha)) h.link.nodup.not_mem_erase
  have hmem : ∀ c, c ∈ (l.filter fun c => c.addr = a) ++ (l.filter fun c => c.addr ≠ a) ↔
      c ∈ l := by
    intro c
    rcases eq_or_ne c.addr a with hca | hca <;> simp [hca]
  have haddr : ((l.filter fun c => c.addr = a) ++ l.filter fun c => c.addr ≠ a).map Cell.addr =
      a :: (l.map Cell.addr).erase a := by
    have hone : (l.filter fun c => c.addr = a).map Cell.addr = [a] := by
      have hcount := List.count_eq_one_of_mem h.link.nodup ha
      rw [List.count_eq_length_filter, List.filter_map, List.length_map] at hcount
      obtain ⟨c, hc⟩ := List.length_eq_one_iff.mp hcount
      have hfilter : (l.filter fun c => c.addr = a) = [c] := by
        rw [← hc]
        exact List.filter_congr fun c _ => by rw [Bool.eq_iff_iff]; simp
      have hca : c ∈ l.filter fun c => c.addr = a := hfilter ▸ List.mem_singleton_self c
      rw [hfilter, List.map_singleton, of_decide_eq_true (List.mem_filter.mp hca).2]
    rw [List.map_append, hone, h.map_filter_addr]
    rfl
  refine ⟨_, _, hdet, hatt, rfl, ?_⟩
  constructor
  · exact h.nslot_pos
  · exact h.tableBytes
  · intro c
    rw [hmem, h.mem_iff]
    simp only [hcontents₂, hcontents₁]
  · rw [haddr]
    simp only [hlinks₂]
    exact hlink₁.insertHead h.link.nodup.not_mem_erase
  · intro s hs
    simp only [hbuckets₂, hbuckets₁]
    exact h.bucket s hs
  · intro s hs x
    simp only [hmem]
    exact h.bucket_mem s hs x
  · have hlen := congrArg List.length haddr
    rw [List.length_map, List.length_cons, List.length_erase_of_mem ha, List.length_map] at hlen
    have hpos : 0 < l.length := List.length_map Cell.addr ▸ List.length_pos_of_mem ha
    simp only [h.size, hlen]
    congr 1
    omega

lemma walk_eq (h : Stores m l b) : m.walk = .ok (l.map Cell.addr) :=
  walkFrom_eq h.link.chain h.live_of_mem (by simpa using h.length_le)

/-- **`find`** returns the first entry of the bucket with the key. -/
lemma find_bucket [DecidableEq K] (h : Stores m l b) (k : K) :
    m.find k = .ok ((b (HashKey.doHash k % m.nslot)).find?
      fun x => (contents m.entries x).map Prod.fst = some k) := by
  have hslt : HashKey.doHash k % m.nslot < m.nslot := Nat.mod_lt _ h.nslot_pos
  rw [find, slotOf_eq h.nslot_pos, ok_bind, tableAt_eq h.tableBytes hslt, ok_bind]
  exact findFrom_eq (h.bucket _ hslt).chain (h.live_of_bucket hslt)
    (Heap.length_le_bound (h.bucket _ hslt).nodup (h.live_of_bucket hslt))

/-- The addresses of the entries with a key. -/
lemma key_iff (h : Stores m l b) {k : K} (x : ℕ) :
    (contents m.entries x).map Prod.fst = some k ↔ ∃ c ∈ l, c.addr = x ∧ c.key = k := by
  rw [Option.map_eq_some_iff]
  constructor
  · rintro ⟨⟨k, v⟩, hkv, rfl⟩
    exact ⟨⟨x, k, v⟩, (h.mem_iff _).mpr hkv, rfl, rfl⟩
  · rintro ⟨c, hc, rfl, rfl⟩
    exact ⟨_, (h.mem_iff c).mp hc, rfl⟩

/-- With distinct keys `find` returns the entry of the key. -/
lemma find_eq [DecidableEq K] (h : Stores m l b) (hk : (l.map Cell.key).Nodup) (k : K) :
    m.find k = .ok ((l.find? fun c => c.key = k).map Cell.addr) := by
  have hslt : HashKey.doHash k % m.nslot < m.nslot := Nat.mod_lt _ h.nslot_pos
  rw [h.find_bucket k]
  congr 1
  cases hfind : l.find? fun c => c.key = k with
  | none =>
      refine List.find?_eq_none.mpr fun x _ hx => ?_
      obtain ⟨c, hc, -, hck⟩ := (h.key_iff x).mp (of_decide_eq_true hx)
      exact List.find?_eq_none.mp hfind c hc (decide_eq_true hck)
  | some c =>
      have hc : c ∈ l := List.mem_of_find?_eq_some hfind
      have hck : c.key = k := by simpa using List.find?_some hfind
      have hin : c.addr ∈ b (HashKey.doHash k % m.nslot) :=
        (h.bucket_mem _ hslt _).mpr ⟨c, hc, rfl, by rw [hck]⟩
      cases hx : (b (HashKey.doHash k % m.nslot)).find?
          fun x => (contents m.entries x).map Prod.fst = some k with
      | none =>
          exact absurd (decide_eq_true ((h.key_iff _).mpr ⟨c, hc, rfl, hck⟩))
            (List.find?_eq_none.mp hx _ hin)
      | some x =>
          obtain ⟨c', hc', rfl, hck'⟩ := (h.key_iff x).mp (by simpa using List.find?_some hx)
          rw [List.inj_on_of_nodup_map hk hc' hc (hck'.trans hck.symm)]
          rfl

/-- **`rehash`** leaves the cells and their order alone.  The buckets get the entries in the
opposite order. -/
lemma rehash_bucket (h : Stores m l b) {os : Libc} {n : ℕ} (hos : os.Total) (hn : 0 < n)
    (hlt : n < 2 ^ 29) :
    ∃ m', m.rehash os n = .ok m' ∧ m'.nslot = n ∧ contents m'.entries = contents m.entries ∧
      Stores m' l fun s =>
        ((l.map Cell.addr).filter fun x => slotIn m.entries n x = some s).reverse := by
  have hbytes : u32 (n * 8) = 8 * n := by rw [u32_of_lt (by omega), Nat.mul_comm]
  obtain ⟨h', t', hrun, hlinks, hcontents, hbuckets⟩ := rehashFrom_spec
    (h := m.entries) (t := fun _ => none) (b := fun _ => []) hn h.link.chain
    h.live_of_mem (show _ ≤ m.entries.bound by simpa using h.length_le) (fun _ _ => DList.nil)
    (fun s _ x hx => absurd hx (by simp))
  have hreh : m.rehash os n = .ok { m with
      entries := h', table := t', tableBytes := 8 * n, nslot := n } := by
    rw [HmapT.rehash, rtAssert_of_pos hn, ok_bind]
    dsimp only
    rw [rtAssert_of_pos (hos.malloc _), ok_bind, hbytes, hrun]
    rfl
  simp only [List.append_nil] at hbuckets
  refine ⟨_, hreh, rfl, hcontents, hn, rfl, ?_, ?_, fun s hs => hbuckets s hs, ?_, h.size⟩
  · intro c
    rw [hcontents, h.mem_iff]
  · rw [hlinks]
    exact h.link
  · intro s hs x
    simp only [List.mem_reverse, List.mem_filter, decide_eq_true_eq, List.mem_map]
    constructor
    · rintro ⟨⟨c, hc, rfl⟩, hslot⟩
      rw [slotIn, (h.mem_iff c).mp hc] at hslot
      exact ⟨c, hc, rfl, Option.some.inj hslot⟩
    · rintro ⟨c, hc, rfl, hslot⟩
      refine ⟨⟨c, hc, rfl⟩, ?_⟩
      rw [slotIn, (h.mem_iff c).mp hc]
      exact congrArg some hslot

lemma rehash (h : Stores m l b) {os : Libc} {n : ℕ} (hos : os.Total) (hn : 0 < n)
    (hlt : n < 2 ^ 29) :
    ∃ m' b', m.rehash os n = .ok m' ∧ m'.nslot = n ∧ Stores m' l b' := by
  obtain ⟨m', hrun, hslot, -, h'⟩ := h.rehash_bucket hos hn hlt
  exact ⟨m', _, hrun, hslot, h'⟩

/-- **`remove_all`** leaves no cell. -/
lemma removeAllFrom (h : Stores m l b) {fuel : ℕ} (hfuel : l.length ≤ fuel) :
    ∃ m' b', HmapT.removeAllFrom fuel m = .ok m' ∧ m'.nslot = m.nslot ∧ Stores m' [] b' := by
  induction l generalizing m b fuel with
  | nil =>
      have hhead : m.linkHead = none := h.link.chain
      refine ⟨m, b, ?_, rfl, h⟩
      cases fuel with
      | zero => rw [HmapT.removeAllFrom, if_pos hhead]
      | succ fuel => rw [HmapT.removeAllFrom, hhead]
  | cons c l ih =>
      have hhead : m.linkHead = some c.addr := h.link.chain.1
      obtain ⟨fuel, rfl⟩ := Nat.exists_eq_succ_of_ne_zero
        (show fuel ≠ 0 from fun h0 => by simp [h0] at hfuel)
      obtain ⟨m₁, b₁, hrem, hslot, h₁⟩ := h.remove (a := c.addr) (by simp)
      have htail : ((c :: l).filter fun c' => c'.addr ≠ c.addr) = l := by
        have hnd := (List.nodup_cons.mp h.link.nodup).1
        rw [List.filter_cons_of_neg (by simp), List.filter_eq_self]
        intro c' hc'
        simp only [ne_eq, decide_eq_true_eq]
        exact fun he => hnd (he ▸ List.mem_map_of_mem hc')
      rw [htail] at h₁
      obtain ⟨m₂, b₂, hrun, hslot₂, h₂⟩ := ih h₁ (Nat.le_of_succ_le_succ hfuel)
      refine ⟨m₂, b₂, ?_, hslot₂.trans hslot, h₂⟩
      rw [HmapT.removeAllFrom, hhead]
      dsimp only
      rw [hrem, ok_bind, hrun]

lemma removeAll (h : Stores m l b) :
    ∃ m' b', m.removeAll = .ok m' ∧ m'.nslot = m.nslot ∧ Stores m' [] b' :=
  h.removeAllFrom h.length_le

end Stores

end Stores

end HmapT

end Axon
