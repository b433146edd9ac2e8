import Axon.Core.AxStringLaid

/-!
# `expand` and `strcat`

The two members of `string_t` that grow an object.  `expand` moves the text to a larger block and
keeps it; `strcat` reserves with `expand` and then writes behind the text.

* **`growHeap`** : the heap on which they ask for memory.  A block that grows may stay where it is.
* **`Grows`** : a call has left an object with a content, in its old storage or in a new block.
* `expand_spec`, `strcat_spec` : the calls, where they do what they are for.  An empty string in
  the object itself is moved with whatever was on the stack; and a string in a block that is still
  short after `strcat` is written to as if it were in the object.
-/

namespace Axon

open Library

namespace Strings

variable {ι : Type} [DecidableEq ι] {m m' m'' : Strings ι} {i j : ι} {os : Malloc}
  {junk : ℕ → UInt8} {s t : List UInt8} {n : ℕ}

/-- The heap on which an object asks for a block to grow in: its own block may be reused. -/
def growHeap (m : Strings ι) (i : ι) : Heap (List UInt8) :=
  if m.IsSmall i then m.heap else m.heap.free (m.dataAddr i)

/-- The object `i` shows a content, in storage it had or in the block `malloc` returned. -/
structure Grows (m m' : Strings ι) (i : ι) (os : Malloc) (s : List UInt8) : Prop where
  touches : Touches m m' i (m.owned i ++ [os.addr])
  shows : m'.Shows i s
  data : ¬ m'.IsSmall i → m'.dataAddr i ∈ m.owned i ++ [os.addr]

omit [DecidableEq ι] in
lemma Grows.refl (os : Malloc) (h : m.Shows i s) : Grows m m i os s where
  touches := ⟨fun _ _ => rfl, fun _ _ => rfl⟩
  shows := h
  data hi := by
    rw [owned, if_neg hi]
    exact List.mem_append_left _ (List.mem_singleton.mpr rfl)

omit [DecidableEq ι] in
/-- Storage that stays with the object may be written to. -/
lemma Grows.store (h : Grows m m' i os s) {l : List ℕ} (htouch : Touches m' m'' i l)
    (hl : l ⊆ m.owned i ++ [os.addr]) (hshows : m''.Shows i t)
    (hdata : ¬ m''.IsSmall i → m''.dataAddr i ∈ m.owned i ++ [os.addr]) : Grows m m'' i os t where
  touches := (h.touches.trans htouch).mono (List.append_subset.mpr ⟨fun _ ha => ha, hl⟩)
  shows := hshows
  data := hdata

/-! ## `expand` -/

/-- The fields `expand` sets at its end. -/
lemma header_expanded {cap len : ℕ} (hcap : cap < 2 ^ 32) (hlen : len < 2 ^ 32) :
    (((m.setLargerCapacity i cap).setLargerLen i len).setLast i typeMask).header i =
      ⟨m.dataAddr i, len, cap, typeMask⟩ := by
  rw [header_setLast, header_setLargerLen hlen, header_setLargerCapacity hcap]
  rfl

lemma touches_expanded {cap len : ℕ} :
    Touches m (((m.setLargerCapacity i cap).setLargerLen i len).setLast i typeMask) i [] := by
  have hcap : Touches m (m.setLargerCapacity i cap) i [] := poke_touches
  have hlen : Touches m ((m.setLargerCapacity i cap).setLargerLen i len) i [] :=
    hcap.trans poke_touches
  exact hlen.trans poke_touches

omit [DecidableEq ι] in
/-- **The local copy** of a string that is not empty. -/
lemma expandTmp_eq (junk : ℕ → UInt8) (h : m.Inline i s) (hs : (0 : UInt8) ∉ s) (hne : s ≠ []) :
    m.expandTmp junk i = .ok s := by
  have hterm := h.terminated
  rw [cStr, if_pos h.isSmall] at hterm
  have hpos : 0 < m.len i := by
    rw [h.len_eq]
    exact List.length_pos_of_ne_nil hne
  have hsplit : maxSmallLen + 1 = (s ++ [0]).length + (maxSmallLen - s.length) := by
    have hfits := h.fits
    rw [List.length_append, List.length_singleton]
    omega
  have hbytes : ∃ rest, window (blit junk 0 (s ++ [0])) 0 (maxSmallLen + 1) = s ++ 0 :: rest := by
    refine ⟨window (blit junk 0 (s ++ [0])) (0 + (s ++ [0]).length) (maxSmallLen - s.length), ?_⟩
    rw [hsplit, window_append, window_blit_self, List.append_assoc]
    rfl
  obtain ⟨rest, hbytes⟩ := hbytes
  rw [expandTmp, if_pos hpos, hterm.chars hs, ok_bind, if_pos h.fits, ok_bind]
  dsimp only
  rw [hbytes, if_pos (by simp), takeWhile_terminated hs]
  rfl

/-- **`expand`** of a string in the object moves the text to a block. -/
lemma expand_inline {text : List UInt8} (h : m.IsSmall i) (hn : maxSmallLen ≤ n)
    (hlt : n + 1 < 2 ^ 32) (htmp : m.expandTmp junk i = .ok text) (hlen : m.len i = text.length)
    (htext : text.length ≤ n) (hos : Met os m.heap) :
    ∃ m', m.expand os junk i n = .ok m' ∧ Placed m m' i os.addr text ∧ m'.InBlock i text ∧
      n ≤ m'.largerCapacity i := by
  obtain ⟨hres, -⟩ := malloc_spec (m := m) (i := i) hos (n + 1)
  set m₁ := (m.malloc os (n + 1)).setData i os.addr with hm₁
  obtain ⟨m₂, hfill, hres₂, -, hcell₂⟩ := hres.fill (List.replicate (n + 1) 0) (by simp)
  obtain ⟨m₃, hstore, hres₃, hsmall₃, hcell₃⟩ :=
    hres₂.store (text ++ [0]) hcell₂ (by simpa using htext) (by simp)
  have hdata₂ : m₂.data i = .block os.addr := hres₂.data_eq
  set m₄ := ((m₃.setLargerCapacity i n).setLargerLen i text.length).setLast i typeMask with hm₄
  have hheader : m₄.header i = ⟨os.addr, text.length, n, typeMask⟩ := by
    rw [hm₄, header_expanded (by omega) (by omega), hres₃.data]
  have hcell₄ : m₄.heap.cell os.addr = some (text ++ 0 :: List.replicate (n - text.length) 0) := by
    rw [hm₄, heap_setLast, heap_setLargerLen, heap_setLargerCapacity, hcell₃,
      List.drop_replicate, List.length_append, List.length_singleton, Nat.add_sub_add_right,
      List.append_assoc]
    rfl
  have hcap : text.length + (List.replicate (n - text.length) (0 : UInt8)).length = n := by
    rw [List.length_replicate]
    omega
  have htouch : Touches m m₄ i [os.addr] :=
    (hres₃.touches.trans touches_expanded).mono (l := [os.addr] ++ []) (by simp)
  refine ⟨m₄, ?_, .of_header htouch hres.addr_ne (by omega) hheader rfl hcell₄ hcap,
    .of_header hres.addr_ne hheader rfl hcell₄ hcap, (largerCapacity_of_header hheader).ge⟩
  rw [expand]
  dsimp only
  rw [if_neg (by omega), if_pos h, htmp, ok_bind, u32_of_lt hlt, ← hm₁, hfill, ok_bind, hstore,
    ok_bind, hlen]
  rfl

/-- **`expand`** of a string in a block that is too small. -/
lemma expand_realloc (junk : ℕ → UInt8) (h : m.InBlock i s) (hn : maxSmallLen ≤ n)
    (hlt : n + 1 < 2 ^ 32) (hcap : m.largerCapacity i < n)
    (hos : Met os (m.heap.free (m.dataAddr i))) :
    ∃ m', m.expand os junk i n = .ok m' ∧ Touches m m' i [m.dataAddr i, os.addr] ∧
      m'.InBlock i s ∧ m'.dataAddr i = os.addr ∧ n ≤ m'.largerCapacity i := by
  obtain ⟨rest, hcell, hrest⟩ := h.block
  set old := s ++ 0 :: rest with hold
  have holdlen : old.length = m.largerCapacity i + 1 := by
    rw [hold, List.length_append, List.length_cons, ← hrest]
    omega
  set bytes := old.take (n + 1) ++ (window os.junk 0 (n + 1)).drop old.length with hbytes
  set rest' := rest ++ (window os.junk 0 (n + 1)).drop old.length with hrest'
  have hsplit : bytes = s ++ 0 :: rest' := by
    rw [hbytes, List.take_of_length_le (by omega), hold, List.append_assoc]
    rfl
  have hrestlen : s.length + rest'.length = n := by
    rw [hrest', List.length_append, List.length_drop, length_window]
    omega
  set m₁ : Strings ι := { m with heap := (m.heap.free (m.dataAddr i)).put os.addr bytes } with hm₁
  have hrealloc : m.reallocData os i (n + 1) = .ok m₁ := by
    rw [reallocData, h.data_eq]
    dsimp only
    rw [deref_eq hcell, ok_bind, if_neg hos.ne_null]
    rfl
  have htouch₁ : Touches m m₁ i [m.dataAddr i, os.addr] := by
    refine ⟨fun _ _ => rfl, fun a ha => ?_⟩
    rw [List.mem_cons, List.mem_singleton, not_or] at ha
    rw [Heap.cell_put_of_ne ha.2, Heap.cell_free_of_ne ha.1]
  have hset : Touches m₁ (m₁.setData i os.addr) i [] := poke_touches
  set m₂ := m₁.setData i os.addr with hm₂
  have hdata₂ : m₂.dataAddr i = os.addr := dataAddr_of_header (header_setData hos.lt)
  set m₃ := ((m₂.setLargerCapacity i n).setLargerLen i s.length).setLast i typeMask with hm₃
  have hlens : s.length ≤ n := by omega
  have hheader : m₃.header i = ⟨os.addr, s.length, n, typeMask⟩ := by
    rw [hm₃, header_expanded (by omega) (by omega), hdata₂]
  have hcell₃ : m₃.heap.cell os.addr = some (s ++ 0 :: rest') := by
    rw [hm₃, heap_setLast, heap_setLargerLen, heap_setLargerCapacity, hm₂, heap_setData,
      Heap.cell_put_self, hsplit]
  refine ⟨m₃, ?_, ?_, .of_header hos.ne_null hheader rfl hcell₃ hrestlen,
    dataAddr_of_header hheader, (largerCapacity_of_header hheader).ge⟩
  · rw [expand]
    dsimp only
    rw [if_neg (by omega), if_neg h.not_isSmall, if_pos hcap, u32_of_lt hlt, hrealloc, ok_bind,
      rtAssert_of_pos hos.ne_null, ok_bind, h.len_eq]
    rfl
  · exact ((htouch₁.trans hset).trans touches_expanded).mono
      (l := [m.dataAddr i, os.addr] ++ [] ++ []) (by simp)

/-- **`expand`** keeps the content, unless an empty string leaves the object. -/
lemma expand_spec (junk : ℕ → UInt8) (h : m.Shows i s) (hs : (0 : UInt8) ∉ s)
    (hlt : n + 1 < 2 ^ 32)
    (hkeep : ¬ (m.IsSmall i ∧ s = [] ∧ maxSmallLen ≤ n)) (hos : Met os (m.growHeap i)) :
    ∃ m', m.expand os junk i n = .ok m' ∧ Grows m m' i os s ∧
      (n < maxSmallLen → m' = m) ∧
      (maxSmallLen ≤ n → m'.InBlock i s ∧ n ≤ m'.largerCapacity i) := by
  rcases Nat.lt_or_ge n maxSmallLen with hn | hn
  · exact ⟨m, if_pos hn, .refl _ h, fun _ => rfl, fun hle => absurd hn (Nat.not_lt_of_le hle)⟩
  · have hlong : ¬ n < maxSmallLen := Nat.not_lt_of_le hn
    rw [growHeap] at hos
    by_cases hi : m.IsSmall i
    · have hin := h.inline_of_isSmall hi
      have hne : s ≠ [] := fun hnil => hkeep ⟨hi, hnil, hn⟩
      rw [if_pos hi] at hos
      obtain ⟨m', hok, hplaced, hblock, hcap⟩ := expand_inline (n := n) hi hn hlt
        (expandTmp_eq junk hin hs hne) hin.len_eq (hin.fits.trans hn) hos
      refine ⟨m', hok, ⟨?_, hplaced.shows, fun hi' => ?_⟩, fun hlt => absurd hlt hlong,
        fun _ => ⟨hblock, hcap⟩⟩
      · exact hplaced.touches.mono (List.subset_append_right ..)
      · exact List.mem_append_right _ (List.mem_singleton.mpr (hplaced.data hi'))
    · have hin := h.inBlock_of_not_isSmall hi
      rw [if_neg hi] at hos
      by_cases hcap : m.largerCapacity i < n
      · obtain ⟨m', hok, htouch, hblock, hdata, hcap'⟩ :=
          expand_realloc junk hin hn hlt hcap hos
        refine ⟨m', hok, ⟨?_, .inBlock hblock h.lt, fun _ => ?_⟩, fun hlt => absurd hlt hlong,
          fun _ => ⟨hblock, hcap'⟩⟩
        · rw [owned, if_neg hi]
          exact htouch
        · exact List.mem_append_right _ (List.mem_singleton.mpr hdata)
      · refine ⟨m, ?_, .refl _ h, fun hlt => absurd hlt hlong,
          fun _ => ⟨hin, Nat.le_of_not_lt hcap⟩⟩
        rw [expand]
        dsimp only
        rw [if_neg hlong, if_neg hi, if_neg hcap]

/-! ## `strcat` -/

/-- **Behind the text of a block** that has room. -/
lemma append_block {p : CPtr ι} (h : m.InBlock i s) (hs : (0 : UInt8) ∉ s)
    (hp : m.Terminated p t) (ht : (0 : UInt8) ∉ t)
    (hroom : s.length + t.length ≤ m.largerCapacity i)
    (hlt : s.length + t.length + 1 < 2 ^ 32) :
    ∃ m', m.appendChars (m.data i) p = .ok m' ∧
      Touches m (m'.setLargerLen i (s.length + t.length)) i [m.dataAddr i] ∧
      (m'.setLargerLen i (s.length + t.length)).InBlock i (s ++ t) ∧
      (m'.setLargerLen i (s.length + t.length)).dataAddr i = m.dataAddr i := by
  obtain ⟨rest, hcell, hrest⟩ := h.block
  have hle : (s ++ t ++ [0]).length ≤ (s ++ 0 :: rest).length := by
    simp only [List.length_append, List.length_cons, List.length_nil]
    omega
  obtain ⟨m', hok, htouch, hsmall, hcell'⟩ := store_block (m := m) (i := i) hcell hle
  set rest' := (s ++ 0 :: rest).drop (s ++ t ++ [0]).length with hrest'
  set m'' := m'.setLargerLen i (s.length + t.length) with hm''
  have hheader : m''.header i =
      ⟨m.dataAddr i, (s ++ t).length, m.largerCapacity i, m.small i lastChar⟩ := by
    rw [hm'', header_setLargerLen (by omega), header_congr (congrFun hsmall i), List.length_append]
    rfl
  have hcell'' : m''.heap.cell (m.dataAddr i) = some (s ++ t ++ 0 :: rest') := by
    rw [hm'', heap_setLargerLen, hcell', List.append_assoc (s ++ t)]
    rfl
  refine ⟨m', ?_, ?_, .of_header h.addr hheader h.last hcell'' ?_, dataAddr_of_header hheader⟩
  · rw [appendChars, h.terminated_data.chars hs, ok_bind, hp.chars ht, ok_bind, h.data_eq, hok]
  · have hset : Touches m' m'' i [] := poke_touches
    exact (htouch.trans hset).mono (l := [m.dataAddr i] ++ []) (by simp)
  · simp only [hrest', List.length_drop, List.length_append, List.length_cons, List.length_nil]
    omega

/-- **Behind the text of an object** that has room. -/
lemma append_inline {p : CPtr ι} (h : m.Inline i s) (hs : (0 : UInt8) ∉ s)
    (hp : m.Terminated p t) (ht : (0 : UInt8) ∉ t) (hroom : s.length + t.length ≤ maxSmallLen) :
    m.appendChars (.small i) p = .ok (m.poke i 0 (s ++ t ++ [0])) ∧
      (m.poke i 0 (s ++ t ++ [0])).small i lastChar &&& typeMask = 0 ∧
      window ((m.poke i 0 (s ++ t ++ [0])).small i) 0 ((s ++ t).length + 1) = s ++ t ++ [0] := by
  have hterm := h.terminated
  rw [cStr, if_pos h.isSmall] at hterm
  have hlen : (s ++ t ++ [0]).length = s.length + t.length + 1 := by simp [Nat.add_assoc]
  refine ⟨?_, ?_, ?_⟩
  · rw [appendChars, hterm.chars hs, ok_bind, hp.chars ht, ok_bind, store, if_pos]
    simp only [maxSmallLen, unionSize] at hroom ⊢
    omega
  · rw [poke_small_self, blit_of_outside, h.last]
    · exact (small_len_byte h.fits).1
    · simp only [maxSmallLen, lastChar, unionSize] at hroom ⊢
      omega
  · have hself := window_blit_self (m.small i) 0 (s ++ t ++ [0])
    rwa [hlen, ← List.length_append, ← poke_small_self] at hself

/-- The length byte that `strcat` stores. -/
lemma inline_strcat (hbit : m.small i lastChar &&& typeMask = 0) (hfits : s.length ≤ maxSmallLen)
    (hbytes : window (m.small i) 0 (s.length + 1) = s ++ [0]) :
    let m₁ := m.setLast i (m.small i lastChar &&& typeMask)
    (m₁.setLast i (m₁.small i lastChar |||
      (UInt8.ofNat s.length &&& smallLenMask))).Inline i s := by
  intro m₁
  have hlast : m₁.small i lastChar = 0 := (congrArg Header.last header_setLast).trans hbit
  refine Inline.of_poke hfits ?_ ?_
  · have hle : 0 + (s.length + 1) ≤ lastChar := by
      simp only [lastChar, maxSmallLen, unionSize] at hfits ⊢
      omega
    rw [← hbytes, show m₁ = m.setLast i _ from rfl, setLast, poke_small_self,
      window_blit_of_le _ _ hle]
  · rw [hlast, mask_small_len hfits, UInt8.zero_or]

/-- The last bytes that `strcat` stores over the type byte of a block. -/
lemma block_tag (c : UInt8) (hc : c &&& typeMask = typeMask) (hn : n ≤ maxSmallLen) :
    (c &&& typeMask ||| (UInt8.ofNat n &&& smallLenMask)) &&& typeMask = typeMask := by
  have hall : ∀ n < 23,
      (typeMask ||| (UInt8.ofNat n &&& smallLenMask)) &&& typeMask = typeMask := by
    decide
  rw [hc]
  exact hall n (Nat.lt_succ_of_le hn)

/-- **Nothing behind nothing**: with an empty text `strcat` stores the `NUL` it finds in the object,
where the object is a record of a block. -/
lemma append_nothing {p : CPtr ι} (h : m.InBlock i s) (hfits : s.length ≤ maxSmallLen)
    (hp : m.Terminated p []) : m.appendChars (.small i) p = .ok m := by
  have hzero : m.small i 9 = 0 := by
    -- the second byte of `len_`
    have hlen : word32 (m.small i) 8 = s.length := h.len
    have hlt : s.length < 256 := Nat.lt_of_le_of_lt hfits (by decide)
    rw [word32] at hlen
    have hbyte : (m.small i (8 + 1)).toNat = 0 := by omega
    exact UInt8.toNat_inj.mp hbyte
  have hmem : (0 : UInt8) ∈ window (m.small i) 0 unionSize := hzero ▸ window_mem (by decide)
  obtain ⟨u, rest, hsplit, hu⟩ := exists_terminated hmem
  have hterm : m.Terminated (.small i) u := ⟨rest, by rw [storage, hsplit]⟩
  have hlen : (u ++ [] ++ [0]).length ≤ unionSize := by
    have := congrArg List.length hsplit
    simp only [length_window, List.length_append, List.length_cons, List.length_nil] at this ⊢
    omega
  have hself : blit (m.small i) 0 (u ++ [] ++ [0]) = m.small i := by
    refine blit_eq_self ?_
    rw [← take_window (m.small i) 0 hlen, hsplit, List.append_nil, List.length_append,
      List.take_append, List.take_of_length_le (by simp), Nat.add_sub_cancel_left]
    rfl
  rw [appendChars, hterm.chars hu, ok_bind, hp.chars List.not_mem_nil, ok_bind, store, if_pos hlen,
    poke, hself, Function.update_eq_self]

/-- **`strcat` reserves** a block with room for the whole text. -/
lemma reserve_spec (junk : ℕ → UInt8) (h : m.Shows i s) (hs : (0 : UInt8) ∉ s)
    (hlong : maxSmallLen < n) (hlt : n + 1 < 2 ^ 32) (hkeep : m.IsSmall i → s ≠ [])
    (hos : Met os (m.growHeap i)) :
    ∃ m', m.reserve os junk i n = .ok m' ∧ Grows m m' i os s ∧ m'.InBlock i s ∧
      n ≤ m'.largerCapacity i := by
  rw [reserve]
  split_ifs with hcap
  · obtain ⟨m', hok, hgrows, -, hblock⟩ := expand_spec junk h hs hlt
      (fun hbad => hkeep hbad.1 hbad.2.1) hos
    exact ⟨m', hok, hgrows, hblock hlong.le⟩
  · have hi : ¬ m.IsSmall i := by
      intro hi
      rw [capacity, if_pos hi] at hcap
      exact hcap hlong
    rw [capacity, if_neg hi] at hcap
    exact ⟨m, rfl, .refl _ h, h.inBlock_of_not_isSmall hi, Nat.le_of_not_lt hcap⟩

/-- **`strcat`** to a text that is long then. -/
lemma strcat_long {p : CPtr ι} (h : m.Shows i s) (hs : (0 : UInt8) ∉ s) (hp : m.Terminated p t)
    (ht : (0 : UInt8) ∉ t) (hlong : maxSmallLen < s.length + t.length)
    (hlt : s.length + t.length + 1 < 2 ^ 32) (hkeep : m.IsSmall i → s ≠ [])
    (hos : Met os (m.growHeap i)) (hap : Apart p i (m.owned i ++ [os.addr])) :
    ∃ m', m.strcat os junk i p = .ok m' ∧ Grows m m' i os (s ++ t) := by
  have hnew : u32 (u32 t.length + m.len i) = s.length + t.length := by
    rw [h.len_eq, u32_of_lt (n := t.length) (by omega), Nat.add_comm, u32_of_lt (by omega)]
  obtain ⟨m₁, hreserve, hgrows, hblock, hroom⟩ :=
    reserve_spec junk h hs hlong hlt hkeep hos
  have hp₁ : m₁.Terminated p t := hgrows.touches.terminated hap hp
  obtain ⟨m₂, happend, htouch, hblock₂, hdata⟩ := append_block hblock hs hp₁ ht hroom hlt
  have hown := hgrows.data hblock.not_isSmall
  refine ⟨_, ?_, hgrows.store htouch (by simpa using hown) (.inBlock hblock₂ (by simpa using hlt))
    fun _ => ?_⟩
  · rw [strcat, hp.strlen ht, ok_bind]
    dsimp only
    rw [hnew, hreserve, ok_bind, if_pos hlong, happend]
    rfl
  · rwa [hdata]

/-- **`strcat`** to a text that stays in the object. -/
lemma strcat_inline {p : CPtr ι} (h : m.Inline i s) (hs : (0 : UInt8) ∉ s) (hp : m.Terminated p t)
    (ht : (0 : UInt8) ∉ t) (hroom : s.length + t.length ≤ maxSmallLen) :
    ∃ m', m.strcat os junk i p = .ok m' ∧ Grows m m' i os (s ++ t) := by
  have hlt : s.length + t.length < 2 ^ 32 := Nat.lt_of_le_of_lt hroom (by decide)
  have hnew : u32 (u32 t.length + m.len i) = (s ++ t).length := by
    rw [h.len_eq, u32_of_lt (n := t.length) (by omega), Nat.add_comm, u32_of_lt hlt,
      List.length_append]
  have hfits : (s ++ t).length ≤ maxSmallLen := by rwa [List.length_append]
  obtain ⟨happend, hbit, hbytes⟩ := append_inline h hs hp ht hroom
  set m₁ := m.poke i 0 (s ++ t ++ [0]) with hm₁
  have hin := inline_strcat hbit hfits hbytes
  refine ⟨_, ?_, (Grows.refl os (.inline h)).store (l := []) ?_ (List.nil_subset _) (.inline hin)
    fun hi => absurd hin.isSmall hi⟩
  · rw [strcat, hp.strlen ht, ok_bind]
    dsimp only
    rw [hnew, reserve, capacity, if_pos h.isSmall, if_neg (Nat.not_lt_of_le hfits), ok_bind,
      if_neg (Nat.not_lt_of_le hfits), happend]
    rfl
  · have hpoke : Touches m m₁ i [] := poke_touches
    have hset : Touches m (m₁.setLast i (m₁.small i lastChar &&& typeMask)) i [] :=
      hpoke.trans poke_touches
    exact hset.trans poke_touches

/-- **`strcat`** of an empty text to a short string in a block. -/
lemma strcat_nothing {p : CPtr ι} (h : m.InBlock i s) (hp : m.Terminated p [])
    (hfits : s.length ≤ maxSmallLen) :
    ∃ m', m.strcat os junk i p = .ok m' ∧ Grows m m' i os s := by
  have hlt : s.length + 1 < 2 ^ 32 := Nat.lt_of_le_of_lt (Nat.succ_le_succ hfits) (by decide)
  have hnew : u32 (u32 ([] : List UInt8).length + m.len i) = s.length := by
    rw [h.len_eq, List.length_nil, u32_of_lt (n := 0) (by decide), Nat.zero_add,
      u32_of_lt (by omega)]
  obtain ⟨rest, hcell, hrest⟩ := h.block
  set m₁ := m.setLast i (m.small i lastChar &&& typeMask) with hm₁
  set m₂ := m₁.setLast i (m₁.small i lastChar ||| (UInt8.ofNat s.length &&& smallLenMask)) with hm₂
  have hlast₁ : m₁.small i lastChar = m.small i lastChar &&& typeMask :=
    congrArg Header.last header_setLast
  have hheader : m₂.header i = ⟨m.dataAddr i, s.length, m.largerCapacity i,
      m.small i lastChar &&& typeMask ||| (UInt8.ofNat s.length &&& smallLenMask)⟩ := by
    rw [hm₂, header_setLast, hlast₁, hm₁, header_setLast, ← h.len]
    rfl
  have hin : m₂.InBlock i s := .of_header h.addr hheader (block_tag _ h.last hfits) hcell hrest
  have hself := Grows.refl os (.inBlock h hlt)
  refine ⟨m₂, ?_, hself.store (l := []) ?_ (List.nil_subset _) (.inBlock hin hlt) fun _ => ?_⟩
  · rw [strcat, hp.strlen List.not_mem_nil, ok_bind]
    dsimp only
    rw [hnew, reserve, capacity, if_neg h.not_isSmall, if_neg (by omega), ok_bind,
      if_neg (Nat.not_lt_of_le hfits), append_nothing h hfits hp]
    rfl
  · have hset : Touches m m₁ i [] := poke_touches
    exact hset.trans poke_touches
  · have hdata : m₂.dataAddr i = m.dataAddr i := dataAddr_of_header hheader
    rw [hdata]
    exact hself.data h.not_isSmall

/-- What `strcat` needs: a string that is moved to a block is not empty, and a string in a block is
long then, or stays as it is. -/
structure CanAppend (m : Strings ι) (i : ι) (t : List UInt8) : Prop where
  inline : m.IsSmall i → maxSmallLen < m.len i + t.length → m.len i ≠ 0
  inBlock : ¬ m.IsSmall i → t ≠ [] → maxSmallLen < m.len i + t.length

/-- **`strcat`** puts the text behind the content. -/
lemma strcat_spec {p : CPtr ι} (h : m.Shows i s) (hs : (0 : UInt8) ∉ s) (hp : m.Terminated p t)
    (ht : (0 : UInt8) ∉ t) (hlt : s.length + t.length + 1 < 2 ^ 32) (hcan : m.CanAppend i t)
    (hos : Met os (m.growHeap i)) (hap : Apart p i (m.owned i ++ [os.addr])) :
    ∃ m', m.strcat os junk i p = .ok m' ∧ Grows m m' i os (s ++ t) := by
  obtain ⟨hinline, hblock⟩ := hcan
  rw [h.len_eq] at hinline hblock
  rcases Nat.lt_or_ge maxSmallLen (s.length + t.length) with hlong | hshort
  · refine strcat_long h hs hp ht hlong hlt (fun hi hnil => ?_) hos hap
    exact hinline hi hlong (by rw [hnil]; rfl)
  · by_cases hi : m.IsSmall i
    · exact strcat_inline (h.inline_of_isSmall hi) hs hp ht hshort
    · have hnil : t = [] := by
        by_contra hne
        exact absurd (hblock hi hne) (Nat.not_lt_of_le hshort)
      subst hnil
      rw [List.append_nil]
      exact strcat_nothing (h.inBlock_of_not_isSmall hi) hp hshort

end Strings

end Axon
