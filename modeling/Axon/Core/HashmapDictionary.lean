import Axon.Core.HashmapStores

/-!
# `hmap_t` is a dictionary with an ordered list of its entries

What the hash table is for: a finite map from keys to values whose entries can be visited in an
order the caller controls.

* **`Dict.step`** : the dictionary, a list of cells in the order of iteration.  Insertion and the
  move of the LRU queue put a cell in front, removal takes it out of its place.
* **`HmapT.Represents`** : the table stores these cells.  Every entry is in the bucket list of its
  slot and once in the link list, and both lists are linked correctly.
* **`HmapT.run_dictionary`** : every sequence of calls with distinct keys returns, gives the answers
  of the dictionary, and leaves the table representing it.
-/

namespace Axon

open Library

/-! ## The dictionary -/

variable {K V : Type}

/-- A call on the table.  The LRU move is `detach_link` followed by `attach_link_head`. -/
inductive HmapOp (K V : Type) where
  /-- `insert`, with the address of the new entry. -/
  | insert (a : ℕ) (k : K) (v : Option V)
  | find (k : K)
  | getData (k : K)
  | removeGet (k : K)
  /-- `remove`, of the entry at this address. -/
  | remove (a : ℕ)
  | rehash (os : Libc) (n : ℕ)
  | lruMove (a : ℕ)
  | removeAll

/-- What a call returns. -/
inductive HmapAnswer (V : Type) where
  | done
  | entry (p : Option ℕ)
  | data (v : Option V)
deriving DecidableEq

namespace Dict

variable [DecidableEq K]

/-- **What a call means** for the list of cells, front first. -/
def step (l : List (Cell K V)) : HmapOp K V → List (Cell K V) × HmapAnswer V
  | .insert a k v => (⟨a, k, v⟩ :: l, .done)
  | .find k => (l, .entry ((l.find? fun c => c.key = k).map Cell.addr))
  | .getData k => (l, .data ((l.find? fun c => c.key = k).bind Cell.data))
  | .removeGet k =>
      (l.filter fun c => c.key ≠ k, .data ((l.find? fun c => c.key = k).bind Cell.data))
  | .remove a => (l.filter fun c => c.addr ≠ a, .done)
  | .rehash _ _ => (l, .done)
  | .lruMove a => ((l.filter fun c => c.addr = a) ++ l.filter fun c => c.addr ≠ a, .done)
  | .removeAll => ([], .done)

/-- The calls with distinct keys: an inserted key is not present and `new` returns a free address,
entries handed in are live, and a new table size is in range. -/
def Valid (l : List (Cell K V)) : HmapOp K V → Prop
  | .insert a k _ => a ∉ l.map Cell.addr ∧ k ∉ l.map Cell.key
  | .remove a => a ∈ l.map Cell.addr
  | .lruMove a => a ∈ l.map Cell.addr
  | .rehash os n => os.Total ∧ 0 < n ∧ n < 2 ^ 29
  | _ => True

/-- A sequence of calls, with the answers. -/
def run : List (Cell K V) → List (HmapOp K V) → List (Cell K V) × List (HmapAnswer V)
  | l, [] => (l, [])
  | l, op :: ops =>
      let (l₁, r) := step l op
      let (l₂, rs) := run l₁ ops
      (l₂, r :: rs)

/-- Each call of the sequence is valid where it is made. -/
def ValidRun : List (Cell K V) → List (HmapOp K V) → Prop
  | _, [] => True
  | l, op :: ops => Valid l op ∧ ValidRun (step l op).1 ops

end Dict

namespace HmapT

variable [DecidableEq K] [HashKey K]

/-- One call on the table. -/
def step (m : HmapT K V) : HmapOp K V → Except Fault (HmapT K V × HmapAnswer V)
  | .insert a k v => do
      let m ← m.insert a k v
      pure (m, .done)
  | .find k => do
      let p ← m.find k
      pure (m, .entry p)
  | .getData k => do
      let v ← m.getData k
      pure (m, .data v)
  | .removeGet k => do
      let (m, v) ← m.removeGet k
      pure (m, .data v)
  | .remove a => do
      let m ← m.remove (some a)
      pure (m, .done)
  | .rehash os n => do
      let m ← m.rehash os n
      pure (m, .done)
  | .lruMove a => do
      let m ← m.detachLink (some a)
      let m ← m.attachLinkHead (some a)
      pure (m, .done)
  | .removeAll => do
      let m ← m.removeAll
      pure (m, .done)

/-- A sequence of calls, with the answers. -/
def run : HmapT K V → List (HmapOp K V) → Except Fault (HmapT K V × List (HmapAnswer V))
  | m, [] => .ok (m, [])
  | m, op :: ops => do
      let (m, r) ← m.step op
      let (m, rs) ← run m ops
      pure (m, r :: rs)

/-- **The table represents the dictionary.**  The live entries are the cells; the link list visits
each of them once, in order, and the bucket list of a slot each of those whose key hashes to it; in
both, nothing is before the head and the two links are inverse; lookup, size and iteration are
those of the list. -/
structure Represents (m : HmapT K V) (l : List (Cell K V)) : Prop where
  live : ∀ a, m.entries.Live a ↔ a ∈ l.map Cell.addr
  entry : ∀ c ∈ l, ∃ e, m.entries.cell c.addr = some e ∧ e.key = c.key ∧ e.data = c.data
  link : DList (linkFields m.entries) m.linkHead (l.map Cell.addr)
  link_nodup : (l.map Cell.addr).Nodup
  link_inverse : ∀ a b, m.entries.Live a → m.entries.Live b →
    ((linkFields m.entries).next a = some b ↔ (linkFields m.entries).prev b = some a)
  bucket : ∀ s < m.nslot, ∃ b, DList (bucketFields m.entries) (m.table s) b ∧ b.Nodup ∧
    (∀ x ∈ b, ∀ y ∈ b,
      ((bucketFields m.entries).next x = some y ↔ (bucketFields m.entries).prev y = some x)) ∧
    ∀ a, a ∈ b ↔ ∃ c ∈ l, c.addr = a ∧ HashKey.doHash c.key % m.nslot = s
  find : ∀ k, m.find k = .ok ((l.find? fun c => c.key = k).map Cell.addr)
  size : m.size = u32 l.length
  walk : m.walk = .ok (l.map Cell.addr)

variable {m : HmapT K V} {l : List (Cell K V)} {b : ℕ → List ℕ}

lemma Stores.represents (h : Stores m l b) (hk : (l.map Cell.key).Nodup) : Represents m l where
  live _ := h.live_iff
  entry _ hc := h.entry_of_mem hc
  link := h.link
  link_nodup := h.link.nodup
  link_inverse _ _ hx hy := h.link.next_eq_iff (h.live_iff.mp hx) (h.live_iff.mp hy)
  bucket s hs := ⟨b s, h.bucket s hs, (h.bucket s hs).nodup,
    fun _ hx _ hy => (h.bucket s hs).next_eq_iff hx hy, h.bucket_mem s hs⟩
  find := h.find_eq hk
  size := h.size
  walk := h.walk_eq

lemma Stores.getData_eq (h : Stores m l b) (hk : (l.map Cell.key).Nodup) (k : K) :
    m.getData k = .ok ((l.find? fun c => c.key = k).bind Cell.data) := by
  rw [getData, h.find_eq hk, ok_bind]
  cases hfind : l.find? fun c => c.key = k with
  | none => rfl
  | some c =>
      obtain ⟨e, he, -, hdata⟩ := h.entry_of_mem (List.mem_of_find?_eq_some hfind)
      simp only [Option.map_some, Option.bind_some]
      rw [deref_eq he, ok_bind, hdata]
      rfl

/-- `remove_get` of a key that is not there does nothing. -/
lemma Stores.removeGet_none (h : Stores m l b) (hk : (l.map Cell.key).Nodup) {k : K}
    (hnot : k ∉ l.map Cell.key) : m.removeGet k = .ok (m, none) := by
  have hfind : (l.find? fun c => c.key = k) = none :=
    List.find?_eq_none.mpr fun c hc hck => hnot (List.mem_map.mpr ⟨c, hc, of_decide_eq_true hck⟩)
  rw [HmapT.removeGet, h.find_eq hk, hfind]
  rfl

/-- **`remove_get`** removes the cell of the key, if there is one. -/
lemma Stores.removeGet (h : Stores m l b) (hk : (l.map Cell.key).Nodup) (k : K) :
    ∃ m' b', m.removeGet k = .ok (m', (l.find? fun c => c.key = k).bind Cell.data) ∧
      m'.nslot = m.nslot ∧ Stores m' (l.filter fun c => c.key ≠ k) b' := by
  cases hfind : l.find? fun c => c.key = k with
  | none =>
      have hnot : k ∉ l.map Cell.key := by
        rw [List.mem_map]
        rintro ⟨c, hc, hck⟩
        exact List.find?_eq_none.mp hfind c hc (decide_eq_true hck)
      refine ⟨m, b, h.removeGet_none hk hnot, rfl, ?_⟩
      rwa [List.filter_eq_self.mpr fun c hc => by simpa using List.find?_eq_none.mp hfind c hc]
  | some c =>
      have hc : c ∈ l := List.mem_of_find?_eq_some hfind
      have hck : c.key = k := by simpa using List.find?_some hfind
      obtain ⟨e, he, -, hdata⟩ := h.entry_of_mem hc
      obtain ⟨m', b', hrem, hslot, h'⟩ := h.remove (List.mem_map_of_mem hc)
      have hfilter : (l.filter fun c' => c'.addr ≠ c.addr) = l.filter fun c' => c'.key ≠ k := by
        refine List.filter_congr fun c' hc' => decide_eq_decide.mpr (not_congr ⟨?_, ?_⟩)
        · intro haddr
          rw [h.eq_of_addr hc' hc haddr, hck]
        · intro hkey
          rw [List.inj_on_of_nodup_map hk hc' hc (hkey.trans hck.symm)]
      refine ⟨m', b', ?_, hslot, hfilter ▸ h'⟩
      rw [HmapT.removeGet, h.find_eq hk, hfind, ok_bind]
      simp only [Option.map_some]
      rw [deref_eq he, ok_bind, hrem, ok_bind, hdata]
      rfl

/-- **One valid call** returns the answer of the dictionary and keeps the invariant. -/
lemma Stores.step (h : Stores m l b) (hk : (l.map Cell.key).Nodup) {op : HmapOp K V}
    (hv : Dict.Valid l op) :
    ∃ m' b', m.step op = .ok (m', (Dict.step l op).2) ∧ Stores m' (Dict.step l op).1 b' ∧
      ((Dict.step l op).1.map Cell.key).Nodup := by
  cases op with
  | insert a k v =>
      obtain ⟨m', b', hrun, -, h'⟩ := h.insert (fun ha => hv.1 (h.live_iff.mp ha)) k v
      refine ⟨m', b', ?_, h', List.nodup_cons.mpr ⟨hv.2, hk⟩⟩
      rw [HmapT.step, hrun]
      rfl
  | find k =>
      refine ⟨m, b, ?_, h, hk⟩
      rw [HmapT.step, h.find_eq hk]
      rfl
  | getData k =>
      refine ⟨m, b, ?_, h, hk⟩
      rw [HmapT.step, h.getData_eq hk]
      rfl
  | removeGet k =>
      obtain ⟨m', b', hrun, -, h'⟩ := h.removeGet hk k
      refine ⟨m', b', ?_, h', hk.sublist (List.filter_sublist.map _)⟩
      rw [HmapT.step, hrun]
      rfl
  | remove a =>
      obtain ⟨m', b', hrun, -, h'⟩ := h.remove hv
      refine ⟨m', b', ?_, h', hk.sublist (List.filter_sublist.map _)⟩
      rw [HmapT.step, hrun]
      rfl
  | rehash os n =>
      obtain ⟨m', b', hrun, -, h'⟩ := h.rehash hv.1 hv.2.1 hv.2.2
      refine ⟨m', b', ?_, h', hk⟩
      rw [HmapT.step, hrun]
      rfl
  | lruMove a =>
      obtain ⟨m₁, m₂, hdet, hatt, -, h'⟩ := h.lruMove hv
      have hperm : ((l.filter fun c => c.addr = a) ++ l.filter fun c => c.addr ≠ a).Perm l := by
        simpa using List.filter_append_perm (fun c : Cell K V => decide (c.addr = a)) l
      refine ⟨m₂, b, ?_, h', (hperm.map _).nodup_iff.mpr hk⟩
      rw [HmapT.step, hdet, ok_bind, hatt]
      rfl
  | removeAll =>
      obtain ⟨m', b', hrun, -, h'⟩ := h.removeAll
      refine ⟨m', b', ?_, h', List.nodup_nil⟩
      rw [HmapT.step, hrun]
      rfl

/-- Every sequence of valid calls returns, with the answers of the dictionary. -/
lemma Stores.run (h : Stores m l b) (hk : (l.map Cell.key).Nodup) {ops : List (HmapOp K V)}
    (hv : Dict.ValidRun l ops) :
    ∃ m' b', m.run ops = .ok (m', (Dict.run l ops).2) ∧ Stores m' (Dict.run l ops).1 b' ∧
      ((Dict.run l ops).1.map Cell.key).Nodup := by
  induction ops generalizing m l b with
  | nil => exact ⟨m, b, rfl, h, hk⟩
  | cons op ops ih =>
      obtain ⟨m₁, b₁, hstep, h₁, hk₁⟩ := h.step hk hv.1
      obtain ⟨m₂, b₂, hrun, h₂, hk₂⟩ := ih h₁ hk₁ hv.2
      refine ⟨m₂, b₂, ?_, h₂, hk₂⟩
      rw [HmapT.run, hstep, ok_bind]
      dsimp only
      rw [hrun]
      rfl

/-- **`hmap_t` with distinct keys is a dictionary.**  For every table size and every sequence of
calls in which an inserted key is not present, every call returns the answer of the dictionary, and
the table reached represents it. -/
theorem run_dictionary {os : Libc} {n : ℕ} (hos : os.Total) (hn : 0 < n) (hlt : n < 2 ^ 29)
    {ops : List (HmapOp K V)} (hv : Dict.ValidRun [] ops) :
    ∃ m₀ m : HmapT K V, new os n = .ok m₀ ∧ m₀.run ops = .ok (m, (Dict.run [] ops).2) ∧
      Represents m (Dict.run [] ops).1 := by
  obtain ⟨m₀, hnew, -, h₀⟩ := Stores.new (K := K) (V := V) hos hn hlt
  obtain ⟨m, b, hrun, h, hk⟩ := h₀.run List.nodup_nil hv
  exact ⟨m₀, m, hnew, hrun, h.represents hk⟩

/-- Two keys in one slot, the older one moved to the front and the table resized. -/
def someCalls : List (HmapOp ℤ ℕ) :=
  [.insert 1 5 (some 50), .insert 2 15 (some 60), .find 5, .lruMove 1, .rehash zeroLibc 3,
    .removeGet 15, .getData 15]

theorem run_dictionary_collision :
    ∃ m₀ m : HmapT ℤ ℕ, new zeroLibc 10 = .ok m₀ ∧
      m₀.run someCalls = .ok (m, [.done, .done, .entry (some 1), .done, .done, .data (some 60),
        .data none]) ∧
      Represents m [⟨1, 5, some 50⟩] :=
  run_dictionary zeroLibc_total (by decide) (by decide)
    (show Dict.ValidRun [] someCalls from
      ⟨⟨by decide, by decide⟩, ⟨by decide, by decide⟩, trivial, by simp [Dict.step, Dict.Valid],
        ⟨zeroLibc_total, by decide, by decide⟩, trivial, trivial, trivial⟩)

end HmapT

end Axon
