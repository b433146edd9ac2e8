import Axon.Core.AxStringGrowth

/-!
# Families of `string_t` that grow

Any number of objects, and any sequence of calls on them, `expand` and `strcat` among them.  A
string in a block may then be short.

* **`Growth.Allowed`** : the calls that leave a string behind.  `expand` and `strcat` must not move
  an empty string out of its object, and `strcat` must not leave a short string in a block with
  something behind it.
* **`Grown`** : the objects after any sequence of such calls, beside their contents.
* **`strcat_concatenates`** : `strcat` puts the text behind the content.
* **`expand_reserves_iff`** : exactly when `expand` only reserves.
* **`assignment_iff`** : exactly when an assignment takes the content of its source, the object
  itself included.
-/

namespace Axon

open Library

namespace Strings

variable {ι : Type} [DecidableEq ι] {A : Contents ι} {m m' : Strings ι} {i j : ι} {os : Malloc}
  {junk : ℕ → UInt8}

/-! ## Calls and contents -/

/-- One text behind another. -/
def appendText (s t : CString) : CString :=
  ⟨s.1 ++ t.1, fun h => (List.mem_append.mp h).elim s.2 t.2⟩

/-- The heap on which a call asks for memory. -/
def Growth.mallocHeap (m : Strings ι) : Growth ι → Heap (List UInt8)
  | .update u => u.mallocHeap m
  | .expand i _ | .strcat i _ => m.growHeap i

/-- The calls that leave a string behind.  Sizes and lengths fit a `uint32_t`, and no argument is
in the storage of the object; `operator=` may be called with the object itself. -/
def Growth.Allowed (m : Strings ι) (A : Contents ι) : Growth ι → Prop
  | .update (.copyAssign i j) => A i ≠ none ∧ A j ≠ none
  | .update u => u.Allowed A
  | .expand i n => A i ≠ none ∧ n + 1 < 2 ^ 32 ∧ ¬ (m.IsSmall i ∧ m.len i = 0 ∧ maxSmallLen ≤ n)
  | .strcat i src => A i ≠ none ∧ src.Ok A ∧ src ≠ .null ∧ src ≠ .cStr i ∧
      m.len i + (src.content A).1.length + 1 < 2 ^ 32 ∧ m.CanAppend i (src.content A).1

/-- What a call makes of its object.  `operator=` with the object itself clears it. -/
def Growth.value (A : Contents ι) : Growth ι → Option CString
  | .update (.copyAssign i j) => if j = i then some emptyText else A j
  | .update u => u.value A
  | .expand i _ => A i
  | .strcat i src => some (appendText ((A i).getD emptyText) (src.content A))

/-- What the objects stand for after a call. -/
def Growth.effect (A : Contents ι) (g : Growth ι) : Contents ι :=
  Function.update A g.target (g.value A)

/-! ## One call -/

omit [DecidableEq ι] in
/-- The block an object may grow into is no other object's. -/
lemma Laid.fresh_grow {s t : CString} (hlaid : Laid m A) (hs : A i = some s) (hj : j ≠ i)
    (ht : A j = some t) (hos : Met os (m.growHeap i)) (hsmall : ¬ m.IsSmall j) :
    m.dataAddr j ∉ m.owned i ++ [os.addr] := by
  have hout := hlaid.not_mem_owned hs hj ht hsmall
  have hlive := ((hlaid.shows j t ht).inBlock_of_not_isSmall hsmall).live
  rw [List.mem_append, not_or, List.mem_singleton]
  refine ⟨hout, fun haddr => hos.fresh ?_⟩
  rw [growHeap]
  rw [owned] at hout
  split_ifs at hout ⊢ with hi
  · exact haddr ▸ hlive
  · rw [Heap.live_free, ← haddr]
    exact ⟨fun h => hout (List.mem_singleton.mpr h), hlive⟩

omit [DecidableEq ι] in
lemma Laid.grows {s t : CString} (hlaid : Laid m A) (hs : A i = some s)
    (hos : Met os (m.growHeap i)) (h : Grows m m' i os t.1) :
    Lays A m m' i (m.owned i ++ [os.addr]) (some t) where
  touches := h.touches
  others j u hj hu hsmall := hlaid.fresh_grow hs hj hu hos hsmall
  new u hu := by
    obtain rfl := Option.some.inj hu
    exact ⟨h.shows, h.data⟩

/-- **`a = a`** clears the string. -/
lemma Laid.selfAssign {s : CString} (hlaid : Laid m A) (os : Malloc) (hs : A i = some s) :
    ∃ m', m.copyAssign os i i = .ok m' ∧ Lays A m m' i (m.owned i) (some emptyText) := by
  obtain ⟨m', hclear, hlays, hzero⟩ := hlaid.clear hs
  have hin : m'.Inline i [] := .of_zero hzero
  have hself : blit (m'.small i) 0 (window (m'.small i) 0 unionSize) = m'.small i :=
    blit_eq_self (by rw [length_window])
  refine ⟨m', ?_, hlays⟩
  rw [Strings.copyAssign, hclear, ok_bind, Strings.copyFrom, if_pos hin.isSmall, memcpy, storage,
    ok_bind, if_pos (length_window ..).ge, List.take_of_length_le (length_window ..).le, store,
    if_pos (length_window ..).le, poke, hself, Function.update_eq_self]

/-- The argument of `strcat`. -/
lemma Laid.strcat {s : CString} {src : Source ι} (hlaid : Laid m A) (junk : ℕ → UInt8)
    (hs : A i = some s) (hok : src.Ok A) (hnull : src ≠ .null) (hown : src ≠ .cStr i)
    (hlt : m.len i + (src.content A).1.length + 1 < 2 ^ 32) (hcan : m.CanAppend i (src.content A).1)
    (hos : Met os (m.growHeap i)) :
    ∃ m', m.strcat os junk i (src.ptr m) = .ok m' ∧
      Grows m m' i os (appendText s (src.content A)).1 := by
  have hsrc := hlaid.source (i := i) (l := m.owned i ++ [os.addr]) hok hnull (by
    rintro j t rfl ht
    have hj : j ≠ i := fun hij => hown (hij ▸ rfl)
    exact ⟨hj, fun hsmall => hlaid.fresh_grow hs hj ht hos hsmall⟩)
  have hshows := hlaid.shows i s hs
  rw [hshows.len_eq] at hlt
  exact strcat_spec hshows s.2 hsrc.1 (src.content A).2 hlt hcan hos hsrc.2.2

/-- **A call** returns, and sets its object. -/
lemma Laid.growth {g : Growth ι} (hlaid : Laid m A) (hg : g.Allowed m A)
    (hos : Met os (g.mallocHeap m)) :
    ∃ m' l, g.run m os junk = .ok m' ∧ Lays A m m' g.target l (g.value A) := by
  have hupdate : ∀ u : Update ι, u.Allowed A → Met os (u.mallocHeap m) →
      ∃ m' l, u.run m os = .ok m' ∧ Lays A m m' u.target l (u.value A) := by
    intro u hu hos
    obtain ⟨m', l, hrun, hlays, -⟩ := hlaid.call hu hos
    exact ⟨m', l, hrun, hlays⟩
  cases g with
  | update u =>
      cases u with
      | copyAssign i j =>
          rcases eq_or_ne j i with rfl | hj
          · obtain ⟨s, hs⟩ := Option.ne_none_iff_exists'.mp hg.1
            obtain ⟨m', hrun, hlays⟩ := hlaid.selfAssign os hs
            rw [Growth.value, if_pos rfl]
            exact ⟨m', _, hrun, hlays⟩
          · rw [Growth.value, if_neg hj]
            exact hupdate (.copyAssign i j) ⟨hg.1, hg.2, hj⟩ hos
      | construct i src => exact hupdate (.construct i src) hg hos
      | copyConstruct i j => exact hupdate (.copyConstruct i j) hg hos
      | assign i src => exact hupdate (.assign i src) hg hos
      | clear i => exact hupdate (.clear i) hg hos
      | destroy i => exact hupdate (.destroy i) hg hos
  | expand i n =>
      obtain ⟨hi, hlt, hkeep⟩ := hg
      obtain ⟨s, hs⟩ := Option.ne_none_iff_exists'.mp hi
      have hshows := hlaid.shows i s hs
      rw [hshows.len_eq] at hkeep
      obtain ⟨m', hrun, hgrows, -⟩ := expand_spec junk hshows s.2 hlt
        (fun hbad => hkeep ⟨hbad.1, by rw [hbad.2.1]; rfl, hbad.2.2⟩) hos
      rw [Growth.value, hs]
      exact ⟨m', _, hrun, hlaid.grows hs hos hgrows⟩
  | strcat i src =>
      obtain ⟨hi, hok, hnull, hown, hlt, hcan⟩ := hg
      obtain ⟨s, hs⟩ := Option.ne_none_iff_exists'.mp hi
      obtain ⟨m', hrun, hgrows⟩ := hlaid.strcat junk hs hok hnull hown hlt hcan hos
      rw [Growth.value, hs, Option.getD_some]
      exact ⟨m', _, hrun, hlaid.grows hs hos hgrows⟩

/-! ## Runs -/

/-- The objects after a sequence of calls, beside what they stand for.  At first none is
constructed, and the bytes where they will be are arbitrary; so is what a call finds on the
stack. -/
inductive Grown : Strings ι → Contents ι → Prop where
  | start (m : Strings ι) : Grown m fun _ => none
  | call {m m' : Strings ι} {A : Contents ι} {g : Growth ι} {os : Malloc} {junk : ℕ → UInt8} :
      Grown m A → g.Allowed m A → Met os (g.mallocHeap m) → g.run m os junk = .ok m' →
      Grown m' (g.effect A)

/-- One more call, with what `malloc` and the stack give it. -/
lemma Grown.after (h : Grown m A) (g : Growth ι) (os : Malloc) (junk : ℕ → UInt8)
    (hg : g.Allowed m A) (hos : Met os (g.mallocHeap m)) (hrun : g.run m os junk = .ok m') :
    Grown m' (g.effect A) := .call h hg hos hrun

/-- **Every run** keeps the objects apart, each with its content. -/
lemma Grown.laid (h : Grown m A) : Laid m A := by
  induction h with
  | start m => exact ⟨nofun, nofun⟩
  | call _ hg hos hrun ih =>
      obtain ⟨m', l, hok, hlays⟩ := ih.growth hg hos
      obtain rfl := Except.ok.inj (hok.symm.trans hrun)
      exact ih.lays hlays

/-! ## `strcat` -/

/-- **`strcat` concatenates**, in every run of calls that leave a string behind: whichever of the
two representations the string was in and is in then. -/
theorem strcat_concatenates {s : CString} {src : Source ι} (h : Grown m A) (hs : A i = some s)
    (hg : (Growth.strcat i src).Allowed m A) (hos : Met os (m.growHeap i)) (junk : ℕ → UInt8) :
    m.chars (m.cStr i) = .ok s.1 ∧ m.chars (src.ptr m) = .ok (src.content A).1 ∧
      ∃ m', m.strcat os junk i (src.ptr m) = .ok m' ∧
        m'.chars (m'.cStr i) = .ok (s.1 ++ (src.content A).1) ∧
        m'.len i = m.len i + (src.content A).1.length ∧
        (m'.IsSmall i ∧ m'.Inline i (s.1 ++ (src.content A).1) ∨
          ¬ m'.IsSmall i ∧ m'.InBlock i (s.1 ++ (src.content A).1)) := by
  obtain ⟨-, hok, hnull, hown, hlt, hcan⟩ := hg
  have hshows := h.laid.shows i s hs
  have hsrc : m.Terminated (src.ptr m) (src.content A).1 := by
    refine (h.laid.source (i := i) (l := []) hok hnull ?_).1
    rintro j t rfl -
    exact ⟨fun hij => hown (hij ▸ rfl), fun _ => List.not_mem_nil⟩
  obtain ⟨m', hrun, hgrows⟩ := h.laid.strcat junk hs hok hnull hown hlt hcan hos
  have hshows' : m'.Shows i (s.1 ++ (src.content A).1) := hgrows.shows
  have htext := (appendText s (src.content A)).2
  refine ⟨hshows.terminated.chars s.2, hsrc.chars (src.content A).2, m', hrun,
    hshows'.terminated.chars htext, ?_, ?_⟩
  · rw [hshows'.len_eq, hshows.len_eq, List.length_append]
  · by_cases hi : m'.IsSmall i
    · exact .inl ⟨hi, hshows'.inline_of_isSmall hi⟩
    · exact .inr ⟨hi, hshows'.inBlock_of_not_isSmall hi⟩

/-- A string of one byte, constructed and then made longer than the object. -/
theorem strcat_concatenates_long : ∃ (m m' : Strings Unit) (A : Contents Unit) (os : Malloc)
    (t : CString), Grown m A ∧ t.1.length = 30 ∧
      m.strcat os (fun _ => 97) () (.text t) = .ok m' ∧
      m'.chars (m'.cStr ()) = .ok (98 :: t.1) := by
  have h₁ : Grown _ _ := (Grown.start ⟨fun _ _ => 7, Heap.empty⟩).after
    (.update (.construct () (.text ⟨[98], by decide⟩))) ⟨256, fun _ => 7⟩ (fun _ => 7)
    ⟨rfl, show List.length _ + 1 < 2 ^ 32 by decide⟩
    ⟨by decide, by decide, by decide⟩ rfl
  have hos : Met ⟨256, fun _ => 7⟩ (Heap.empty : Heap (List UInt8)) :=
    ⟨by decide, by decide, by decide⟩
  obtain ⟨-, -, m', hrun, hchars, -⟩ := strcat_concatenates (i := ()) (s := ⟨[98], by decide⟩) h₁
    rfl (show (Growth.strcat () (.text ⟨List.replicate 30 97, by decide⟩)).Allowed _ _ from
      ⟨by decide, show List.length _ + 1 < 2 ^ 32 by decide, nofun, nofun, by decide,
        ⟨by decide, by decide⟩⟩) hos fun _ => 97
  exact ⟨_, m', _, _, _, h₁, rfl, hrun, hchars⟩

/-- **A short string in a block is lost**: after `expand(22)` of a string of one byte, `strcat` of
another byte writes it into the address of the block. -/
theorem strcat_loses : ∃ (m m' : Strings Unit) (A : Contents Unit) (os : Malloc) (t : CString),
    Grown m A ∧ m.chars (m.cStr ()) = .ok [97] ∧ t.1 = [98] ∧ Met os (m.growHeap ()) ∧
      m.strcat os (fun _ => 0) () (.text t) = .ok m' ∧
      m'.chars (m'.cStr ()) = .error .badAccess ∧ m'.len () = 1 := by
  have h₁ : Grown _ _ := (Grown.start ⟨fun _ _ => 0, Heap.empty⟩).after
    (.update (.construct () (.text ⟨[97], by decide⟩))) ⟨256, fun _ => 0⟩ (fun _ => 0)
    ⟨rfl, show List.length _ + 1 < 2 ^ 32 by decide⟩
    ⟨by decide, by decide, by decide⟩ rfl
  have h₂ : Grown _ _ := h₁.after (.expand () 22) ⟨256, fun _ => 0⟩
    (fun _ => 0) ⟨by decide, by decide, by decide⟩ ⟨by decide, by decide, by decide⟩ rfl
  exact ⟨_, _, _, ⟨512, fun _ => 0⟩, ⟨[98], by decide⟩, h₂, rfl, rfl,
    ⟨by decide, by decide, by decide⟩, rfl, rfl, rfl⟩

/-! ## `expand` -/

omit [DecidableEq ι] in
/-- Without a `NUL` on the stack there is no text to move. -/
lemma expandTmp_error {c : UInt8} (hc : c ≠ 0) (hlen : m.len i = 0) :
    m.expandTmp (fun _ => c) i = .error .badAccess := by
  have hmem : (0 : UInt8) ∉ window (fun _ => c) 0 (maxSmallLen + 1) := by
    intro h
    exact hc (window_const h).symm
  rw [expandTmp, if_neg (by omega), ok_bind]
  exact if_neg hmem

/-- **`expand` only reserves** exactly when it does not move an empty string out of its object, and
does not find a block that is smaller than asked for and than an object. -/
theorem expand_reserves_iff {n : ℕ} (h : Grown m A) (hi : A i ≠ none) (hn : n < 2 ^ 32 - 1)
    (hos : Met os (m.growHeap i)) :
    (∀ junk, ∃ m', m.expand os junk i n = .ok m' ∧
        m'.chars (m'.cStr i) = m.chars (m.cStr i) ∧ m'.len i = m.len i ∧ n ≤ m'.capacity i) ↔
      ¬ (m.IsSmall i ∧ m.len i = 0 ∧ 22 ≤ n) ∧
        ¬ (¬ m.IsSmall i ∧ m.capacity i < n ∧ n < 22) := by
  obtain ⟨s, hs⟩ := Option.ne_none_iff_exists'.mp hi
  have hshows := h.laid.shows i s hs
  constructor
  · intro hall
    refine ⟨fun hbad => ?_, fun hbad => ?_⟩
    · obtain ⟨hsmall, hlen, hle⟩ := hbad
      obtain ⟨m', hrun, -⟩ := hall fun _ => 97
      have hlong : ¬ n < maxSmallLen := Nat.not_lt_of_le hle
      rw [expand] at hrun
      dsimp only at hrun
      rw [if_neg hlong, if_pos hsmall, expandTmp_error (by decide) hlen] at hrun
      cases hrun
    · obtain ⟨m', hrun, -, -, hcap⟩ := hall fun _ => 97
      have hsame : m.expand os (fun _ => 97) i n = .ok m := if_pos hbad.2.2
      obtain rfl := Except.ok.inj (hsame.symm.trans hrun)
      exact absurd hbad.2.1 (Nat.not_lt_of_le hcap)
  · rintro ⟨hkeep, hroom⟩ junk
    obtain ⟨m', hrun, hgrows, hshort, hlong⟩ := expand_spec (n := n) junk hshows s.2
      (by omega) (fun hbad => hkeep ⟨hbad.1, by rw [hshows.len_eq, hbad.2.1]; rfl, hbad.2.2⟩) hos
    refine ⟨m', hrun, ?_, ?_, ?_⟩
    · rw [hgrows.shows.terminated.chars s.2, hshows.terminated.chars s.2]
    · rw [hgrows.shows.len_eq, hshows.len_eq]
    · rcases Nat.lt_or_ge n maxSmallLen with hlt | hle
      · rw [hshort hlt]
        by_cases hsmall : m.IsSmall i
        · rw [capacity, if_pos hsmall]
          exact hlt.le
        · exact Nat.le_of_not_lt fun hcap => hroom ⟨hsmall, hcap, hlt⟩
      · obtain ⟨hblock, hcap⟩ := hlong hle
        rwa [capacity, if_neg hblock.not_isSmall]

/-- A string of one byte, moved to a block of 50 bytes. -/
theorem expand_reserves_short : ∃ (m m' : Strings Unit) (A : Contents Unit) (os : Malloc),
    Grown m A ∧ m.expand os (fun _ => 7) () 50 = .ok m' ∧
      m'.chars (m'.cStr ()) = m.chars (m.cStr ()) ∧ 50 ≤ m'.capacity () := by
  have h₁ : Grown _ _ := (Grown.start ⟨fun _ _ => 7, Heap.empty⟩).after
    (.update (.construct () (.text ⟨[98], by decide⟩))) ⟨256, fun _ => 7⟩ (fun _ => 7)
    ⟨rfl, show List.length _ + 1 < 2 ^ 32 by decide⟩
    ⟨by decide, by decide, by decide⟩ rfl
  have hos : Met ⟨256, fun _ => 7⟩ (Heap.empty : Heap (List UInt8)) :=
    ⟨by decide, by decide, by decide⟩
  obtain ⟨m', hrun, hchars, -, hcap⟩ := (expand_reserves_iff (i := ()) (n := 50) h₁ (by decide)
    (by decide) hos).mpr ⟨by decide, by decide⟩ fun _ => 7
  exact ⟨_, m', _, _, h₁, hrun, hchars, hcap⟩

/-- **An empty string becomes what was on the stack**: `expand(50)` of a new string. -/
theorem expand_fails : ∃ (m m' : Strings Unit) (A : Contents Unit) (os : Malloc)
    (junk : ℕ → UInt8), Grown m A ∧ Met os (m.growHeap ()) ∧ m.chars (m.cStr ()) = .ok [] ∧
      m.expand os junk () 50 = .ok m' ∧ m'.chars (m'.cStr ()) = .ok [97] ∧ m'.len () = 0 := by
  have h₁ : Grown _ _ := (Grown.start ⟨fun _ _ => 0, Heap.empty⟩).after
    (.update (.construct () .null)) ⟨256, fun _ => 0⟩ (fun _ => 0)
    ⟨rfl, trivial⟩ ⟨by decide, by decide, by decide⟩ rfl
  exact ⟨_, _, _, ⟨256, fun _ => 0⟩, fun k => if k = 0 then 97 else 0, h₁,
    ⟨by decide, by decide, by decide⟩, rfl, rfl, rfl, rfl⟩

/-! ## Assignment -/

omit [DecidableEq ι] in
lemma dataAddr_lt : m.dataAddr i < 2 ^ 64 := by
  have hlt := leValue_lt (window (m.small i) 0 8)
  rw [length_window] at hlt
  rw [dataAddr]
  omega

/-- **`a.assign(a.c_str())`** of a string in the object: the text has been cleared when it is
read. -/
lemma assign_self_inline {s : List UInt8} (os : Malloc) (h : m.Inline i s) (hs : (0 : UInt8) ∉ s) :
    ∃ m', m.assign os i (m.cStr i) = .ok m' ∧ m'.chars (m'.cStr i) = .ok [] := by
  have hcstr : m.cStr i = .small i := if_pos h.isSmall
  have hclear : m.clear i = .ok (m.memset i) := by
    rw [clear_eq, destroy, if_pos h.isSmall, ok_bind]
  have hzero : (m.memset i).Inline i [] := .of_zero fun k => memset_zero
  have hterm := hzero.terminated
  rw [cStr, if_pos hzero.isSmall] at hterm
  have hlt : s.length < 2 ^ 32 := Nat.lt_of_le_of_lt h.fits (by decide)
  have hbyte := (small_len_byte h.fits).1
  set m₁ := (m.memset i).poke i 0 ([] ++ [0]) with hm₁
  set m₂ := m₁.setLast i (UInt8.ofNat s.length &&& smallLenMask) with hm₂
  have hlast : m₂.small i lastChar = UInt8.ofNat s.length := by
    rw [← mask_small_len h.fits]
    exact congrArg Header.last header_setLast
  have hsmall : m₂.IsSmall i := by
    rw [IsSmall, hlast, hbyte]
  have hfirst : m₂.small i 0 = 0 := by
    rw [hm₂, setLast, poke_small_self, blit_of_outside _ (.inl (by decide)), hm₁, poke_small_self]
    exact blit_apply _ 0 [0] (i := 0) (by decide)
  refine ⟨m₂, ?_, ?_⟩
  · rw [assign, h.terminated.strlen hs, ok_bind]
    dsimp only
    rw [u32_of_lt hlt, hclear, ok_bind, if_neg (Nat.not_lt_of_le h.fits), hcstr,
      strcpy_eq hterm List.not_mem_nil, store, if_pos (by decide)]
    rfl
  · have hterm₂ : m₂.Terminated (.small i) [] := by
      refine ⟨window (m₂.small i) 1 (unionSize - 1), ?_⟩
      show Except.ok (m₂.small i 0 :: _) = _
      rw [hfirst]
      rfl
    rw [cStr, if_pos hsmall, hterm₂.chars List.not_mem_nil]

/-- **`a.assign(a.c_str())`** of a string in a block: the block has been given back when it is
read, and `malloc` may have returned it again with other bytes. -/
lemma assign_self_inBlock {s : List UInt8} (h : m.InBlock i s) (hs : (0 : UInt8) ∉ s)
    (hlt : s.length + 1 < 2 ^ 32) :
    ∃ os, Met os ((Update.assign i (.cStr i)).mallocHeap m) ∧
      m.assign os i (m.cStr i) = .error .badAccess := by
  set m₁ : Strings ι := { m with heap := m.heap.free (m.dataAddr i) } with hm₁
  have hclear : m.clear i = .ok (m₁.memset i) := by
    rw [clear_eq, h.destroy_eq, ok_bind]
  have hgone : (m₁.memset i).heap.cell (m.dataAddr i) = none := by
    rw [heap_memset, Heap.cell_free_self]
  have hos : Met ⟨m.dataAddr i, fun _ => 1⟩ ((Update.assign i (.cStr i)).mallocHeap m) := by
    rw [Update.mallocHeap, hclear]
    exact ⟨h.addr, dataAddr_lt, fun hlive => hlive hgone⟩
  refine ⟨_, hos, ?_⟩
  have hterm := h.terminated_data
  rw [h.cStr_eq, assign, hterm.strlen hs, ok_bind]
  dsimp only
  rw [u32_of_lt (by omega), hclear, ok_bind, h.data_eq, u32_of_lt hlt]
  split_ifs with hlong
  · -- the new block is the old one, and all its bytes are ones
    have hcell : ∀ bs : List UInt8, (0 : UInt8) ∉ bs → ∀ m' : Strings ι, ∀ q : CPtr ι,
        m'.heap.cell (m.dataAddr i) = some bs →
        m'.strcpy q (.block (m.dataAddr i)) = .error .badAccess := by
      intro bs hbs m' q hbytes
      rw [strcpy, chars, storage, deref_eq hbytes, ok_bind, if_neg hbs]
      rfl
    have hones : (0 : UInt8) ∉ window (fun _ => (1 : UInt8)) 0 (s.length + 1) := by
      intro hmem
      exact absurd (window_const hmem) (by decide)
    rw [hcell _ hones]
    · rfl
    · rw [heap_setLargerCapacity, heap_setData, malloc, if_neg h.addr, Heap.cell_put_self]
  · rw [strcpy, chars, storage, deref, hgone]
    rfl

/-- **An assignment takes the content of its source**, exactly when the source is another object or
empty; and `assign` from the object's own text exactly when the text is in the object and empty. -/
theorem assignment_iff {s t : CString} (h : Laid m A) (hs : A i = some s) (ht : A j = some t)
    (hfree : ∃ os, Met os ((Update.copyAssign i j).mallocHeap m)) :
    ((∀ os, Met os ((Update.copyAssign i j).mallocHeap m) →
        ∃ m', m.copyAssign os i j = .ok m' ∧ m'.chars (m'.cStr i) = m.chars (m.cStr j) ∧
          (j ≠ i → m'.small j = m.small j ∧ m'.storage (m'.cStr j) = m.storage (m.cStr j))) ↔
      j ≠ i ∨ m.len j = 0) ∧
    ((∀ os, Met os ((Update.assign i (.cStr i)).mallocHeap m) →
        ∃ m', m.assign os i (m.cStr i) = .ok m' ∧ m'.chars (m'.cStr i) = m.chars (m.cStr i)) ↔
      m.IsSmall i ∧ m.len i = 0) := by
  have hcontent := (h.shows j t ht).terminated.chars t.2
  have hcontent' := (h.shows i s hs).terminated.chars s.2
  have hlen := (h.shows j t ht).len_eq
  have hlen' := (h.shows i s hs).len_eq
  refine ⟨⟨fun hall => ?_, fun hcond os hos => ?_⟩, ⟨fun hall => ?_, fun hcond os _ => ?_⟩⟩
  · by_contra hbad
    obtain ⟨hij, hne⟩ := not_or.mp hbad
    obtain rfl : j = i := not_not.mp hij
    obtain ⟨os, hos⟩ := hfree
    obtain ⟨m', hrun, hchars, -⟩ := hall os hos
    obtain ⟨m'', hrun', hlays⟩ := h.selfAssign os hs
    obtain rfl := Except.ok.inj (hrun.symm.trans hrun')
    rw [(hlays.new emptyText rfl).1.terminated.chars emptyText.2, hcontent] at hchars
    exact hne (by rw [hlen, ← Except.ok.inj hchars]; rfl)
  · rcases eq_or_ne j i with rfl | hj
    · have hempty := hcond.resolve_left (not_not.mpr rfl)
      rw [hlen, List.length_eq_zero_iff] at hempty
      obtain ⟨m', hrun, hlays⟩ := h.selfAssign os hs
      refine ⟨m', hrun, ?_, fun hj => absurd rfl hj⟩
      rw [(hlays.new emptyText rfl).1.terminated.chars emptyText.2, hcontent, hempty]
      rfl
    · obtain ⟨m', l, hrun, hlays, -⟩ := h.copyAssign hs hj ht hos
      refine ⟨m', hrun, ?_, fun _ => hlays.frame hj ht⟩
      rw [(hlays.new t rfl).1.terminated.chars t.2, hcontent]
  · by_cases hi : m.IsSmall i
    · obtain ⟨os, hos⟩ := hfree
      obtain ⟨m', hrun, hchars⟩ := hall os hos
      obtain ⟨m'', hrun', hchars'⟩ :=
        assign_self_inline os ((h.shows i s hs).inline_of_isSmall hi) s.2
      obtain rfl := Except.ok.inj (hrun.symm.trans hrun')
      rw [hchars', hcontent'] at hchars
      exact ⟨hi, by rw [hlen', ← Except.ok.inj hchars]; rfl⟩
    · obtain ⟨os, hos, herror⟩ := assign_self_inBlock
        ((h.shows i s hs).inBlock_of_not_isSmall hi) s.2 (h.shows i s hs).lt
      obtain ⟨m', hrun, -⟩ := hall os hos
      exact absurd (herror.symm.trans hrun) nofun
  · obtain ⟨hi, hempty⟩ := hcond
    rw [hlen', List.length_eq_zero_iff] at hempty
    obtain ⟨m', hrun, hchars⟩ :=
      assign_self_inline os ((h.shows i s hs).inline_of_isSmall hi) s.2
    exact ⟨m', hrun, by rw [hchars, hcontent', hempty]⟩

/-- A string of one byte assigned to an empty one. -/
theorem assignment_between_two : ∃ (m m' : Strings Bool) (os : Malloc),
    m.chars (m.cStr true) = .ok [97] ∧ m.copyAssign os false true = .ok m' ∧
      m'.chars (m'.cStr false) = .ok [97] := by
  have h₁ : Grown _ _ := (Grown.start ⟨fun _ _ => 7, Heap.empty⟩).after
    (.update (.construct true (.text ⟨[97], by decide⟩))) ⟨256, fun _ => 7⟩ (fun _ => 7)
    ⟨rfl, show List.length _ + 1 < 2 ^ 32 by decide⟩
    ⟨by decide, by decide, by decide⟩ rfl
  have h₂ : Grown _ _ := h₁.after (.update (.construct false .null)) ⟨256, fun _ => 7⟩
    (fun _ => 7) ⟨rfl, trivial⟩ ⟨by decide, by decide, by decide⟩ rfl
  have hmet : Met ⟨256, fun _ => 7⟩ (Heap.empty : Heap (List UInt8)) :=
    ⟨by decide, by decide, by decide⟩
  obtain ⟨m', hrun, hchars, -⟩ := ((assignment_iff (i := false) (j := true) h₂.laid rfl rfl
    ⟨⟨256, fun _ => 7⟩, hmet⟩).1.mpr (.inl (by decide))) ⟨256, fun _ => 7⟩ hmet
  exact ⟨_, m', _, rfl, hrun, hchars⟩

/-- **`a = a`** loses the content. -/
theorem self_assignment_clears : ∃ (m m' : Strings Unit) (A : Contents Unit) (os : Malloc),
    Grown m A ∧ m.chars (m.cStr ()) = .ok [97] ∧
      Met os ((Update.copyAssign () ()).mallocHeap m) ∧ m.copyAssign os () () = .ok m' ∧
      m'.chars (m'.cStr ()) = .ok [] := by
  have h₁ : Grown _ _ := (Grown.start ⟨fun _ _ => 0, Heap.empty⟩).after
    (.update (.construct () (.text ⟨[97], by decide⟩))) ⟨256, fun _ => 0⟩ (fun _ => 0)
    ⟨rfl, show List.length _ + 1 < 2 ^ 32 by decide⟩
    ⟨by decide, by decide, by decide⟩ rfl
  exact ⟨_, _, _, ⟨256, fun _ => 0⟩, h₁, rfl, ⟨by decide, by decide, by decide⟩, rfl, rfl⟩

end Strings

end Axon
