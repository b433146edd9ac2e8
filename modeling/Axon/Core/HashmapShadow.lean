import Axon.Core.HashmapDictionary

/-!
# Repeated keys

What `find` returns when a key has been inserted more than once: the entry inserted last, as long as
the bucket has the entries of each key with the newest in front.  Insertion, removal and the move of
the LRU queue keep it so.  `rehash` builds the buckets anew from the link list, and puts in front
what it meets last.

* **`Ages`** : the live entries twice, in the order of the link list and by age.
* **`Ages.step`**, **`Ages.Valid`** : what a call means for them; before a `rehash` the entries of
  each key are on the link list with the oldest in front.
* **`HmapT.Shadows`** : the buckets have the entries of each key with the newest in front.
* **`HmapT.shadowing_iff`** : then `find` returns the newest entry of a key, and one more `rehash`
  leaves that as it is exactly if the newest entry of every key is the last of them on the link
  list.
-/

namespace Axon

open Library

variable {K V : Type}

/-- The live entries: as the link list has them, and from the newest to the oldest. -/
structure Ages (K V : Type) where
  link : List (Cell K V)
  age : List (Cell K V)

namespace Ages

variable [DecidableEq K]

/-- The entries with a key. -/
def withKey (k : K) (l : List (Cell K V)) : List (Cell K V) := l.filter fun c => c.key = k

/-- The newest entry with a key. -/
def newest (g : Ages K V) (k : K) : Option (Cell K V) := (withKey k g.age).head?

/-- The entries without the one at an address. -/
def without (g : Ages K V) (a : ℕ) : Ages K V :=
  ⟨g.link.filter fun c => c.addr ≠ a, g.age.filter fun c => c.addr ≠ a⟩

/-- **What a call means** for the entries.  Lookup is of the newest entry with the key. -/
def step (g : Ages K V) : HmapOp K V → Ages K V × HmapAnswer V
  | .insert a k v => (⟨⟨a, k, v⟩ :: g.link, ⟨a, k, v⟩ :: g.age⟩, .done)
  | .find k => (g, .entry ((g.newest k).map Cell.addr))
  | .getData k => (g, .data ((g.newest k).bind Cell.data))
  | .removeGet k =>
      match g.newest k with
      | none => (g, .data none)
      | some c => (g.without c.addr, .data c.data)
  | .remove a => (g.without a, .done)
  | .rehash _ _ => (g, .done)
  | .lruMove a =>
      (⟨(g.link.filter fun c => c.addr = a) ++ g.link.filter fun c => c.addr ≠ a, g.age⟩, .done)
  | .removeAll => (⟨[], []⟩, .done)

/-- `new` returns a free address, entries handed in are live, a new table size is in range, and at a
`rehash` the entries of each key are on the link list with the oldest in front. -/
def Valid (g : Ages K V) : HmapOp K V → Prop
  | .insert a _ _ => a ∉ g.link.map Cell.addr
  | .remove a => a ∈ g.link.map Cell.addr
  | .lruMove a => a ∈ g.link.map Cell.addr
  | .rehash os n => os.Total ∧ 0 < n ∧ n < 2 ^ 29 ∧
      ∀ k, (withKey k g.link).reverse = withKey k g.age
  | _ => True

/-- A sequence of calls, with the answers. -/
def run : Ages K V → List (HmapOp K V) → Ages K V × List (HmapAnswer V)
  | g, [] => (g, [])
  | g, op :: ops =>
      let (g₁, r) := step g op
      let (g₂, rs) := run g₁ ops
      (g₂, r :: rs)

/-- Each call of the sequence is valid where it is made. -/
def ValidRun : Ages K V → List (HmapOp K V) → Prop
  | _, [] => True
  | g, op :: ops => Valid g op ∧ ValidRun (step g op).1 ops

end Ages

namespace HmapT

open Ages

variable [DecidableEq K] [HashKey K] {m m' : HmapT K V} {g : Ages K V} {b b' : ℕ → List ℕ}

/-- Whether the entry at an address has the key. -/
def hasKey (m : HmapT K V) (k : K) (x : ℕ) : Bool := (contents m.entries x).map Prod.fst = some k

/-- **The buckets show the ages**: the entries of each key are in the bucket of the key with the
newest in front. -/
structure Shadows (m : HmapT K V) (g : Ages K V) (b : ℕ → List ℕ) : Prop where
  stores : Stores m g.link b
  perm : g.age.Perm g.link
  order : ∀ k, (b (HashKey.doHash k % m.nslot)).filter (hasKey m k) =
    (withKey k g.age).map Cell.addr

/-- **`find` returns the newest entry** with the key. -/
lemma Shadows.find_eq (h : Shadows m g b) (k : K) :
    m.find k = .ok ((g.newest k).map Cell.addr) := by
  rw [h.stores.find_bucket k, newest, ← List.head?_map, ← h.order k, List.head?_filter]
  rfl

/-! ## Keys and addresses -/

omit [HashKey K] in
lemma hasKey_congr (h : contents m'.entries = contents m.entries) (k : K) :
    hasKey m' k = hasKey m k := by
  funext x
  rw [hasKey, hasKey, h]

/-- Two tables with the same cell at an address. -/
lemma hasKey_eq {l l' : List (Cell K V)} (h : Stores m l b) (h' : Stores m' l' b') {x : ℕ}
    (hx : ∀ c : Cell K V, c.addr = x → (c ∈ l' ↔ c ∈ l)) (k : K) :
    hasKey m' k x = hasKey m k x := by
  rw [hasKey, hasKey, decide_eq_decide, h.key_iff, h'.key_iff]
  constructor
  · rintro ⟨c, hc, hcx, hck⟩
    exact ⟨c, (hx c hcx).mp hc, hcx, hck⟩
  · rintro ⟨c, hc, hcx, hck⟩
    exact ⟨c, (hx c hcx).mpr hc, hcx, hck⟩

lemma hasKey_addr {l : List (Cell K V)} (h : Stores m l b) {c : Cell K V} (hc : c ∈ l) (k : K) :
    hasKey m k c.addr = decide (c.key = k) := by
  rw [hasKey, (h.mem_iff c).mp hc]
  simp

/-- The addresses of the entries with a key. -/
lemma filter_hasKey {l : List (Cell K V)} (h : Stores m l b) (k : K) :
    (l.map Cell.addr).filter (hasKey m k) = (withKey k l).map Cell.addr := by
  rw [List.filter_map, withKey]
  congr 1
  exact List.filter_congr fun c hc => hasKey_addr h hc k

/-- All entries with a key are in one slot. -/
lemma slotIn_of_hasKey {k : K} {x : ℕ} (hx : hasKey m k x = true) (n : ℕ) :
    slotIn m.entries n x = some (HashKey.doHash k % n) := by
  obtain ⟨p, hp, hpk⟩ := Option.map_eq_some_iff.mp (of_decide_eq_true hx)
  rw [slotIn, hp, Option.map_some, hpk]

/-! ## Calls -/

namespace Shadows

/-- An inserted entry comes in front of the others with its key. -/
lemma insert (h : Shadows m g b) {a : ℕ} (ha : a ∉ g.link.map Cell.addr) (k : K) (v : Option V) :
    ∃ m' b', m.insert a k v = .ok m' ∧
      Shadows m' ⟨⟨a, k, v⟩ :: g.link, ⟨a, k, v⟩ :: g.age⟩ b' := by
  obtain ⟨m', hrun, hslot, h'⟩ :=
    h.stores.insert_bucket (fun hlive => ha (h.stores.live_iff.mp hlive)) v rfl
  refine ⟨m', _, hrun, h', h.perm.cons _, fun k' => ?_⟩
  have hnew : hasKey m' k' a = decide (k = k') := hasKey_addr h' List.mem_cons_self k'
  have hold : ∀ s < m.nslot, (b s).filter (hasKey m' k') = (b s).filter (hasKey m k') := by
    intro s hs
    refine List.filter_congr fun x hx => hasKey_eq h.stores h' (fun c hcx => ?_) k'
    have hne : c ≠ ⟨a, k, v⟩ := by
      rintro rfl
      have hlive : m.entries.Live a := by
        rw [show a = x from hcx]
        exact h.stores.live_of_bucket hs x hx
      exact ha (h.stores.live_iff.mp hlive)
    simp [hne]
  have hlt : ∀ k : K, HashKey.doHash k % m.nslot < m.nslot :=
    fun k => Nat.mod_lt _ h.stores.nslot_pos
  rw [hslot]
  by_cases hk : k = k'
  · subst hk
    rw [Function.update_self, List.filter_cons_of_pos (by rw [hnew]; simp), hold _ (hlt k),
      h.order k, withKey, withKey, List.filter_cons_of_pos (by simp)]
    rfl
  · have hcons : withKey k' (⟨a, k, v⟩ :: g.age) = withKey k' g.age :=
      List.filter_cons_of_neg (by simpa using hk)
    rw [hcons, ← h.order k', ← hold _ (hlt k')]
    rcases eq_or_ne (HashKey.doHash k' % m.nslot) (HashKey.doHash k % m.nslot) with hs | hs
    · rw [hs, Function.update_self, List.filter_cons_of_neg (by rw [hnew]; simpa using hk)]
    · rw [Function.update_of_ne hs]

/-- Removal leaves the others in their order. -/
lemma remove (h : Shadows m g b) {c : Cell K V} (hc : c ∈ g.link) :
    ∃ m' b', m.remove (some c.addr) = .ok m' ∧ Shadows m' (g.without c.addr) b' := by
  obtain ⟨m', hrun, hslot, h'⟩ := h.stores.remove_bucket hc rfl
  refine ⟨m', _, hrun, h', h.perm.filter _, fun k => ?_⟩
  have hslt : HashKey.doHash k % m.nslot < m.nslot := Nat.mod_lt _ h.stores.nslot_pos
  -- whether or not the entry was in this bucket, it is not there now
  have hbucket : Function.update b (HashKey.doHash c.key % m.nslot)
      ((b (HashKey.doHash c.key % m.nslot)).erase c.addr) (HashKey.doHash k % m.nslot) =
      (b (HashKey.doHash k % m.nslot)).filter fun x => x ≠ c.addr := by
    rcases eq_or_ne (HashKey.doHash k % m.nslot) (HashKey.doHash c.key % m.nslot) with hs | hs
    · rw [hs, Function.update_self]
      rw [(h.stores.bucket _ (hs ▸ hslt)).nodup.erase_eq_filter]
      exact List.filter_congr fun x _ => by rw [Bool.eq_iff_iff]; simp
    · rw [Function.update_of_ne hs, List.filter_eq_self.mpr]
      intro x hx
      refine decide_eq_true ?_
      rintro rfl
      refine h.stores.notMem_bucket (Nat.mod_lt _ h.stores.nslot_pos) hslt hs hx ?_
      exact (h.stores.bucket_mem _ (Nat.mod_lt _ h.stores.nslot_pos) _).mpr ⟨c, hc, rfl, rfl⟩
  have hage : (withKey k (g.without c.addr).age).map Cell.addr =
      ((withKey k g.age).map Cell.addr).filter fun x => x ≠ c.addr := by
    rw [List.filter_map, withKey, withKey, without, List.filter_filter, List.filter_filter]
    congr 1
    exact List.filter_congr fun c' _ => by simp [Bool.and_comm]
  rw [hslot, hbucket, hage, ← h.order k, List.filter_filter, List.filter_filter]
  refine List.filter_congr fun x _ => ?_
  by_cases hx : x = c.addr
  · simp [hx]
  · have hsame : hasKey m' k x = hasKey m k x := by
      refine hasKey_eq h.stores h' (fun c' hcx => ?_) k
      simp [hcx, hx]
    simp [hx, hsame]

/-- The LRU move changes the link list only. -/
lemma lruMove (h : Shadows m g b) {a : ℕ} (ha : a ∈ g.link.map Cell.addr) :
    ∃ m₁ m₂, m.detachLink (some a) = .ok m₁ ∧ m₁.attachLinkHead (some a) = .ok m₂ ∧
      Shadows m₂
        ⟨(g.link.filter fun c => c.addr = a) ++ g.link.filter fun c => c.addr ≠ a, g.age⟩ b := by
  obtain ⟨m₁, m₂, hdet, hatt, hslot, h'⟩ := h.stores.lruMove ha
  have hperm : ((g.link.filter fun c => c.addr = a) ++
      g.link.filter fun c => c.addr ≠ a).Perm g.link := by
    simpa using List.filter_append_perm (fun c : Cell K V => decide (c.addr = a)) g.link
  refine ⟨m₁, m₂, hdet, hatt, h', h.perm.trans hperm.symm, fun k => ?_⟩
  rw [hslot, ← h.order k]
  exact List.filter_congr fun x _ => hasKey_eq h.stores h' (fun c _ => hperm.mem_iff) k

/-- **What `rehash` makes of the order**: the last entry with a key on the link list comes first. -/
lemma rehash_order {l : List (Cell K V)} (h : Stores m l b) {os : Libc} {n : ℕ} (hos : os.Total)
    (hn : 0 < n) (hlt : n < 2 ^ 29) :
    ∃ m' b', m.rehash os n = .ok m' ∧ m'.nslot = n ∧ Stores m' l b' ∧
      ∀ k, (b' (HashKey.doHash k % n)).filter (hasKey m' k) =
        ((withKey k l).reverse).map Cell.addr := by
  obtain ⟨m', hrun, hslot, hcontents, h'⟩ := h.rehash_bucket hos hn hlt
  refine ⟨m', _, hrun, hslot, h', fun k => ?_⟩
  have hone : ∀ x ∈ l.map Cell.addr,
      (hasKey m k x && decide (slotIn m.entries n x = some (HashKey.doHash k % n))) =
        hasKey m k x := by
    intro x _
    cases hx : hasKey m k x with
    | false => rfl
    | true => exact decide_eq_true (slotIn_of_hasKey hx n)
  rw [hasKey_congr hcontents, List.filter_reverse, List.filter_filter, List.filter_congr hone,
    filter_hasKey h, List.map_reverse]

lemma rehash (h : Shadows m g b) {os : Libc} {n : ℕ} (hos : os.Total) (hn : 0 < n)
    (hlt : n < 2 ^ 29) (horder : ∀ k, (withKey k g.link).reverse = withKey k g.age) :
    ∃ m' b', m.rehash os n = .ok m' ∧ Shadows m' g b' := by
  obtain ⟨m', b', hrun, hslot, h', hfilter⟩ := rehash_order h.stores hos hn hlt
  refine ⟨m', b', hrun, h', h.perm, fun k => ?_⟩
  rw [hslot, hfilter k, horder k]

/-- A table without entries. -/
lemma of_nil (h : Stores m [] b) : Shadows m ⟨[], []⟩ b := by
  refine ⟨h, .nil, fun k => ?_⟩
  have hslt : HashKey.doHash k % m.nslot < m.nslot := Nat.mod_lt _ h.nslot_pos
  have hnil : b (HashKey.doHash k % m.nslot) = [] := by
    refine List.eq_nil_iff_forall_not_mem.mpr fun x hx => ?_
    obtain ⟨c, hc, -⟩ := (h.bucket_mem _ hslt x).mp hx
    exact absurd hc List.not_mem_nil
  rw [hnil]
  rfl

lemma mem_of_newest (h : Shadows m g b) {k : K} {c : Cell K V} (hc : g.newest k = some c) :
    c ∈ g.link := by
  have hmem := List.mem_of_head? hc
  exact h.perm.mem_iff.mp (List.mem_filter.mp hmem).1

lemma getData_eq (h : Shadows m g b) (k : K) :
    m.getData k = .ok ((g.newest k).bind Cell.data) := by
  rw [getData, h.find_eq, ok_bind]
  cases hc : g.newest k with
  | none => rfl
  | some c =>
      obtain ⟨e, he, -, hdata⟩ := h.stores.entry_of_mem (h.mem_of_newest hc)
      simp only [Option.map_some, Option.bind_some]
      rw [deref_eq he, ok_bind, hdata]
      rfl

/-- **One valid call** has the answer the ages give, and keeps the order. -/
lemma step (h : Shadows m g b) {op : HmapOp K V} (hv : Valid g op) :
    ∃ m' b', m.step op = .ok (m', (g.step op).2) ∧ Shadows m' (g.step op).1 b' := by
  cases op with
  | insert a k v =>
      obtain ⟨m', b', hrun, h'⟩ := h.insert hv k v
      refine ⟨m', b', ?_, h'⟩
      rw [HmapT.step, hrun]
      rfl
  | find k =>
      refine ⟨m, b, ?_, h⟩
      rw [HmapT.step, h.find_eq]
      rfl
  | getData k =>
      refine ⟨m, b, ?_, h⟩
      rw [HmapT.step, h.getData_eq]
      rfl
  | removeGet k =>
      rw [HmapT.step, Ages.step, HmapT.removeGet, h.find_eq, ok_bind]
      cases hc : g.newest k with
      | none => exact ⟨m, b, rfl, h⟩
      | some c =>
          have hmem := h.mem_of_newest hc
          obtain ⟨e, he, -, hdata⟩ := h.stores.entry_of_mem hmem
          obtain ⟨m', b', hrun, h'⟩ := h.remove hmem
          refine ⟨m', b', ?_, h'⟩
          simp only [Option.map_some]
          rw [deref_eq he, ok_bind, hrun, ok_bind, hdata]
          rfl
  | remove a =>
      obtain ⟨c, hc, rfl⟩ := List.mem_map.mp hv
      obtain ⟨m', b', hrun, h'⟩ := h.remove hc
      refine ⟨m', b', ?_, h'⟩
      rw [HmapT.step, hrun]
      rfl
  | rehash os n =>
      obtain ⟨hos, hn, hlt, horder⟩ := hv
      obtain ⟨m', b', hrun, h'⟩ := h.rehash hos hn hlt horder
      refine ⟨m', b', ?_, h'⟩
      rw [HmapT.step, hrun]
      rfl
  | lruMove a =>
      obtain ⟨m₁, m₂, hdet, hatt, h'⟩ := h.lruMove hv
      refine ⟨m₂, b, ?_, h'⟩
      rw [HmapT.step, hdet, ok_bind, hatt]
      rfl
  | removeAll =>
      obtain ⟨m', b', hrun, -, h'⟩ := h.stores.removeAll
      refine ⟨m', b', ?_, of_nil h'⟩
      rw [HmapT.step, hrun]
      rfl

/-- Every sequence of valid calls. -/
lemma run (h : Shadows m g b) {ops : List (HmapOp K V)} (hv : ValidRun g ops) :
    ∃ m' b', m.run ops = .ok (m', (g.run ops).2) ∧ Shadows m' (g.run ops).1 b' := by
  induction ops generalizing m g b with
  | nil => exact ⟨m, b, rfl, h⟩
  | cons op ops ih =>
      obtain ⟨m₁, b₁, hstep, h₁⟩ := h.step hv.1
      obtain ⟨m₂, b₂, hrun, h₂⟩ := ih h₁ hv.2
      refine ⟨m₂, b₂, ?_, h₂⟩
      rw [HmapT.run, hstep, ok_bind]
      dsimp only
      rw [hrun]
      rfl

/-- **A `rehash` keeps the lookups** exactly if the newest entry of every key is the last of them on
the link list. -/
lemma rehash_iff (h : Shadows m g b) {os : Libc} {n : ℕ} (hos : os.Total) (hn : 0 < n)
    (hlt : n < 2 ^ 29) :
    ∃ m', m.rehash os n = .ok m' ∧ ((∀ k, m'.find k = m.find k) ↔
      ∀ k, (withKey k g.link).getLast? = (withKey k g.age).head?) := by
  obtain ⟨m', b', hrun, hslot, h', hfilter⟩ := rehash_order h.stores hos hn hlt
  refine ⟨m', hrun, forall_congr' fun k => ?_⟩
  have hfind : m'.find k = .ok ((withKey k g.link).getLast?.map Cell.addr) := by
    rw [h'.find_bucket k, hslot, ← List.head?_reverse, ← List.head?_map, ← hfilter k,
      List.head?_filter]
    rfl
  rw [hfind, h.find_eq, newest]
  constructor
  · intro heq
    -- the addresses tell the entries apart
    have haddr := Except.ok.inj heq
    cases hlast : (withKey k g.link).getLast? with
    | none =>
        rw [hlast] at haddr
        exact (Option.map_eq_none_iff.mp haddr.symm).symm
    | some c =>
        rw [hlast, Option.map_some] at haddr
        obtain ⟨c', hhead, haddr'⟩ := Option.map_eq_some_iff.mp haddr.symm
        have hc := (List.mem_filter.mp (List.mem_of_getLast? hlast)).1
        have hc' := h.perm.mem_iff.mp (List.mem_filter.mp (List.mem_of_head? hhead)).1
        rw [hhead, h.stores.eq_of_addr hc' hc haddr']
  · intro heq
    rw [heq]

end Shadows

/-- **Repeated keys shadow each other**, in every run in which each `rehash` meets the entries of
each key on the link list from the oldest to the newest: every call has the answer the ages give, so
`find` returns the newest entry that has not been removed.  From there one more `rehash` changes no
lookup if and only if the newest entry of every key is the last of them on the link list. -/
theorem shadowing_iff {os : Libc} {n : ℕ} (hos : os.Total) (hn : 0 < n) (hlt : n < 2 ^ 29)
    {ops : List (HmapOp K V)} (hv : ValidRun ⟨[], []⟩ ops) :
    ∃ m₀ m : HmapT K V, new os n = .ok m₀ ∧
      m₀.run ops = .ok (m, (Ages.run ⟨[], []⟩ ops).2) ∧
      (∀ k, m.find k = .ok (((Ages.run ⟨[], []⟩ ops).1.newest k).map Cell.addr)) ∧
      ∀ (os' : Libc) (n' : ℕ), os'.Total → 0 < n' → n' < 2 ^ 29 →
        ∃ m', m.rehash os' n' = .ok m' ∧ ((∀ k, m'.find k = m.find k) ↔
          ∀ k, (withKey k (Ages.run ⟨[], []⟩ ops).1.link).getLast? =
            (withKey k (Ages.run ⟨[], []⟩ ops).1.age).head?) := by
  obtain ⟨m₀, hnew, -, h₀⟩ := Stores.new (K := K) (V := V) hos hn hlt
  obtain ⟨m, b, hrun, h⟩ := (Shadows.of_nil h₀).run hv
  exact ⟨m₀, m, hnew, hrun, h.find_eq, fun os' n' hos' hn' hlt' => h.rehash_iff hos' hn' hlt'⟩

/-- A key inserted twice, its first entry moved to the front of the link list, and the table
resized. -/
def repeatedKey : List (HmapOp ℤ ℕ) :=
  [.insert 1 5 (some 50), .insert 2 5 (some 60), .lruMove 1, .rehash zeroLibc 3, .find 5]

theorem shadowing_lru : ∃ m₀ m : HmapT ℤ ℕ, new zeroLibc 10 = .ok m₀ ∧
    m₀.run repeatedKey = .ok (m, [.done, .done, .done, .done, .entry (some 2)]) := by
  have hv : ValidRun ⟨[], []⟩ repeatedKey := by
    refine ⟨by simp [Valid], by simp [Valid, Ages.step], by simp [Valid, Ages.step],
      ⟨zeroLibc_total, by decide, by decide, fun k => ?_⟩, trivial, trivial⟩
    by_cases hk : 5 = k
    · subst hk
      rfl
    · simp [Ages.step, withKey, hk]
  obtain ⟨m₀, m, hnew, hrun, -⟩ := shadowing_iff zeroLibc_total (n := 10) (by decide)
    (by decide) hv
  exact ⟨m₀, m, hnew, hrun⟩

/-- **`rehash` turns the order of repeated keys round**: `find` returns the newer entry before it
and the older one after it. -/
theorem shadowing_fails : ∃ m₀ m : HmapT ℤ ℕ, new zeroLibc 10 = .ok m₀ ∧
    m₀.run [.insert 1 5 (some 50), .insert 2 5 (some 60), .find 5, .rehash zeroLibc 3, .find 5] =
      .ok (m, [.done, .done, .entry (some 2), .done, .entry (some 1)]) :=
  ⟨_, _, rfl, rfl⟩

end HmapT

end Axon
