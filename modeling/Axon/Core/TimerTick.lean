import Axon.Core.TimerWheel

/-!
# The ticks of `EvTimer`

How the wheels turn.  The positions are the base-1024 digits of the tick, and when a digit carries,
one bucket of the next wheel is distributed anew, so that after each tick every pending timer is
again in the bucket `which_slot` computes for it.

* **`EvTimer.At`** : where the wheels stand at a tick.
* **`EvTimer.Filed.refile`** : moving a bucket, from any filing that differs in this bucket only.
* **`EvTimer.Filed.advance`** : a tick up to the callbacks.
* **`EvTimer.place_eq_due_iff`** : the current bucket of the first wheel holds the timers that are
  due.
* **`EvTimer.Filed.deleteBucket`** : the last loop of a tick gives up the timers of the current
  bucket.
-/

namespace Axon

open Library

namespace EvTimer

/-! ## Positions -/

/-- **The wheels stand at the tick `n`.**  The last wheel does not come round. -/
structure At (slotNow : ℕ → ℕ) (n : ℕ) : Prop where
  first : slotNow 0 = n % slotPerWheel
  second : slotNow 1 = n / slotPerWheel % slotPerWheel
  third : slotNow 2 = n / slotPerWheel ^ 2

/-- The bucket of the tick that is processed at `n`. -/
def due (n : ℕ) : ℕ × ℕ := (0, n % slotPerWheel)

section Positions

variable {slotNow slotNow' : ℕ → ℕ} {n tick : ℕ}

/-- Only the positions of the two upper wheels decide. -/
lemma place_congr (h1 : slotNow' 1 = slotNow 1) (h2 : slotNow' 2 = slotNow 2) :
    place slotNow' tick = place slotNow tick := by
  rw [place, place, h1, h2]

/-- The current bucket of the first wheel holds exactly the timers that are due. -/
lemma place_eq_due_iff (hat : At slotNow n) (hle : n ≤ tick) (hlim : tick < 2 ^ 30) :
    place slotNow tick = due n ↔ tick = n := by
  rw [place, due, hat.second, hat.third, digit, digit, digit, slotPerWheel]
  split_ifs with h2 h1
  · simp only [Prod.mk.injEq, OfNat.ofNat_ne_zero, false_and, false_iff]
    omega
  · simp only [Prod.mk.injEq, one_ne_zero, false_and, false_iff]
    omega
  · simp only [Prod.mk.injEq, true_and]
    omega

/-- When the first wheel comes round, one bucket of the second one changes place. -/
lemma place_of_carry (hat : At slotNow n) (hat' : At slotNow' (n + 1))
    (hcarry : (n + 1) % 1024 = 0) (hsecond : (n + 1) / 1024 % 1024 ≠ 0) :
    if place slotNow tick = (1, slotNow' 1) then place slotNow' tick ≠ (1, slotNow' 1)
    else place slotNow' tick = place slotNow tick := by
  have h1 : slotNow' 1 = slotNow 1 + 1 := by
    rw [hat.second, hat'.second, slotPerWheel]
    omega
  have h2 : slotNow' 2 = slotNow 2 := by
    rw [hat.third, hat'.third, slotPerWheel]
    omega
  rw [place, place, h1, h2]
  split_ifs <;> simp_all <;> omega

/-- When the second wheel comes round too, every timer ahead is in the third one: the position of
the second wheel does not matter, -/
lemma place_of_upper_carry (hat : At slotNow n) (hcarry : (n + 1) % 1048576 = 0) (hlt : n < tick)
    (hlim : tick < 2 ^ 30) (h2 : slotNow' 2 = slotNow 2) :
    place slotNow' tick = place slotNow tick := by
  have hthird : slotNow 2 < digit tick 2 := by
    rw [hat.third, digit, slotPerWheel]
    omega
  rw [place, place, h2, if_pos hthird, if_pos hthird]

/-- and one bucket of the third wheel changes place. -/
lemma place_of_third_carry (hat : At slotNow n) (hat' : At slotNow' (n + 1))
    (hcarry : (n + 1) % 1048576 = 0) (hlt : n < tick) (hlim : tick < 2 ^ 30) :
    if place slotNow tick = (2, slotNow' 2) then place slotNow' tick ≠ (2, slotNow' 2)
    else place slotNow' tick = place slotNow tick := by
  have hthird : slotNow 2 < digit tick 2 := by
    rw [hat.third, digit, slotPerWheel]
    omega
  have h2 : slotNow' 2 = slotNow 2 + 1 := by
    rw [hat.third, hat'.third, slotPerWheel]
    omega
  rw [place, place, if_pos hthird, h2]
  split_ifs <;> simp_all <;> omega

end Positions

/-! ## Moving a bucket -/

section Moving

variable {t : EvTimer} {B : ℕ × ℕ → List ℕ} {pend : List PTimer}

/-- **The loop that moves a bucket.**  The nodes from `p` on still hang at the head of the bucket
`src` while they are put in front of other buckets; seen without that head the buckets are sound all
the time. -/
lemma moveFrom_eq {src : ℕ × ℕ} {rest : List ℕ} {p : Option ℕ} {fuel : ℕ} (hb : Books t pend)
    (hch : Chains (nexts t.entries) (Function.update t.wheel src none) B)
    (hrest : Chain (nexts t.entries) p rest) (hnot : ∀ a ∈ rest, ∀ i, a ∉ B i)
    (hmem : ∀ a ∈ rest, ∃ q ∈ pend, q.addr = a ∧ q.tick < 2 ^ 30 ∧ place t.slotNow q.tick ≠ src)
    (hfuel : rest.length ≤ fuel) :
    ∃ t' B', moveFrom fuel t p = .ok t' ∧ SameTime t t' ∧ t'.handle = t.handle ∧ Books t' pend ∧
      Chains (nexts t'.entries) (Function.update t'.wheel src none) B' ∧
      ∀ i a, a ∈ B' i ↔
        a ∈ B i ∨ a ∈ rest ∧ ∃ q ∈ pend, q.addr = a ∧ place t.slotNow q.tick = i := by
  induction rest generalizing t B p fuel with
  | nil =>
      obtain rfl : p = none := hrest
      refine ⟨t, B, by rw [moveFrom], SameTime.refl t, rfl, hb, hch, fun i a => ?_⟩
      simp
  | cons x rest ih =>
      obtain ⟨fuel, rfl⟩ := Nat.exists_eq_succ_of_ne_zero
        (Nat.ne_of_gt (Nat.lt_of_lt_of_le (Nat.succ_pos _) hfuel))
      obtain ⟨rfl, hrest'⟩ := hrest
      obtain ⟨q, hq, rfl, hlim, hne⟩ := hmem x List.mem_cons_self
      obtain ⟨nx, hcell, hnx⟩ := hb.entry hq
      have hlive := hb.live hq
      set i := place t.slotNow q.tick with hi
      have hslot : i.2 ≤ slotPerWheel := place_slot_le _ _
      set t₁ : EvTimer := { t with
        entries := t.entries.write q.addr fun e => { e with next := t.wheel i }
        wheel := Function.update t.wheel i (some q.addr) } with ht₁
      have hb₁ : Books t₁ pend :=
        let hb' := hb.setNext hq (t.wheel i)
        ⟨hb'.info, hb'.handle_nodup, hb'.map, hb'.pool⟩
      have hnexts : nexts t₁.entries = Function.update (nexts t.entries) q.addr (t.wheel i) :=
        Heap.field_write_eq (fun _ => rfl) hlive
      have hnodup := (show Chain (nexts t.entries) (some q.addr) (q.addr :: rest) from
        ⟨rfl, hrest'⟩).nodup
      have hwheel : Function.update t₁.wheel src none =
          Function.update (Function.update t.wheel src none) i (some q.addr) :=
        (Function.update_comm hne ..)
      have hch₁ : Chains (nexts t₁.entries) (Function.update t₁.wheel src none)
          (Function.update B i (q.addr :: B i)) := by
        have hpush := hch.push (hnot _ List.mem_cons_self) i
        rw [Function.update_of_ne hne] at hpush
        rw [hnexts, hwheel]
        exact hpush
      have hrest₁ : Chain (nexts t₁.entries) nx rest := by
        rw [hnexts, ← hnx]
        exact hrest'.update (List.nodup_cons.mp hnodup).1 _
      obtain ⟨t', B', hmove, hsame, hhandle, hb', hch', hmem'⟩ := ih hb₁ hch₁ hrest₁
        (fun a ha j hj => by
          rcases mem_update_cons.mp hj with ⟨rfl, -⟩ | hj
          · exact (List.nodup_cons.mp hnodup).1 ha
          · exact hnot a (List.mem_cons_of_mem _ ha) j hj)
        (fun a ha => hmem a (List.mem_cons_of_mem _ ha)) (Nat.le_of_succ_le_succ hfuel)
      have hrun : moveFrom (fuel + 1) t (some q.addr) = moveFrom fuel t₁ nx := by
        rw [moveFrom, deref_eq hcell, ok_bind, whichSlot_eq hlim, ok_bind]
        dsimp only
        rw [← hi, wheelAt_eq hslot, ok_bind, assign_eq hlive, ok_bind, setWheel_eq hslot, ok_bind]
      refine ⟨t', B', hrun.trans hmove, ⟨hsame.ticknow, hsame.tickInterval, hsame.slotNow,
        hsame.buf, hsame.bufEnd⟩, hhandle, hb', hch', fun j a => ?_⟩
      rw [hmem', mem_update_cons, List.mem_cons]
      constructor
      · rintro ((⟨rfl, rfl⟩ | ha) | ⟨ha, hex⟩)
        · exact Or.inr ⟨Or.inl rfl, q, hq, rfl, rfl⟩
        · exact Or.inl ha
        · exact Or.inr ⟨Or.inr ha, hex⟩
      · rintro (ha | ⟨rfl | ha, r, hr, hra, hplace⟩)
        · exact Or.inl (Or.inr ha)
        · obtain rfl := hb.eq_of_addr hr hq hra
          exact Or.inl (Or.inl ⟨rfl, hplace⟩)
        · exact Or.inr ⟨ha, r, hr, hra, hplace⟩

/-- **A bucket is moved** when the position has changed such that only the timers of this bucket are
elsewhere now.  It may be the one behind the end of a wheel. -/
lemma Filed.refile (old : ℕ → ℕ) (src : ℕ × ℕ) (hf : Filed { t with slotNow := old } B pend)
    (hsrc : src.2 ≤ slotPerWheel)
    (hplace : ∀ p ∈ pend, if place old p.tick = src then place t.slotNow p.tick ≠ src
      else place t.slotNow p.tick = place old p.tick) :
    ∃ t' B', (do
        let p ← t.wheelAt src.1 src.2
        let t ← moveFrom t.entries.bound t p
        t.setWheel src.1 src.2 none) = .ok t' ∧
      SameTime t t' ∧ t'.handle = t.handle ∧ Filed t' B' pend := by
  have hb : Books t pend := ⟨hf.books.info, hf.books.handle_nodup, hf.books.map, hf.books.pool⟩
  have hchain : Chain (nexts t.entries) (t.wheel src) (B src) := hf.chains.chain src
  have hmem : ∀ a ∈ B src, ∃ q ∈ pend, q.addr = a ∧ q.tick < 2 ^ 30 ∧
      place t.slotNow q.tick ≠ src := fun a ha => by
    obtain ⟨q, hq, hqa, hold⟩ := (hf.mem src a).mp ha
    have hnew := hplace q hq
    rw [if_pos hold] at hnew
    exact ⟨q, hq, hqa, hf.limit q hq, hnew⟩
  have hlen : (B src).length ≤ t.entries.bound := by
    refine Heap.length_le_bound hchain.nodup fun a ha => ?_
    obtain ⟨q, hq, rfl, -⟩ := hmem a ha
    exact hb.live hq
  obtain ⟨t', B', hmove, hsame, hhandle, hb', hch', hmem'⟩ := moveFrom_eq hb (hf.chains.clear src)
    hchain (fun a ha i hi => by
      rcases eq_or_ne i src with rfl | hne
      · simp at hi
      · rw [Function.update_of_ne hne] at hi
        exact hne (hf.chains.disjoint i src a hi ha)) hmem hlen
  refine ⟨{ t' with wheel := Function.update t'.wheel src none }, B', ?_,
    ⟨hsame.ticknow, hsame.tickInterval, hsame.slotNow, hsame.buf, hsame.bufEnd⟩, hhandle,
    ⟨hb'.info, hb'.handle_nodup, hb'.map, hb'.pool⟩, hch', fun i a => ?_, hf.limit⟩
  · rw [wheelAt_eq hsrc, ok_bind, hmove, ok_bind, setWheel_eq hsrc]
  · rw [hmem' i a]
    show _ ↔ ∃ q ∈ pend, q.addr = a ∧ place t'.slotNow q.tick = i
    rw [hsame.slotNow]
    constructor
    · rintro (ha | ⟨-, hex⟩)
      · rcases eq_or_ne i src with rfl | hne
        · simp at ha
        · rw [Function.update_of_ne hne, hf.mem] at ha
          obtain ⟨q, hq, rfl, hold⟩ := ha
          have hnew := hplace q hq
          rw [if_neg fun h => hne (hold.symm.trans h)] at hnew
          exact ⟨q, hq, rfl, hnew.trans hold⟩
      · exact hex
    · rintro ⟨q, hq, rfl, hnow⟩
      have hnew := hplace q hq
      by_cases hold : place old q.tick = src
      · exact Or.inr ⟨(hf.mem src q.addr).mpr ⟨q, hq, rfl, hold⟩, q, hq, rfl, hnow⟩
      · rw [if_neg hold] at hnew
        have hi : i ≠ src := fun h => hold (hnew.symm.trans (hnow.trans h))
        rw [Function.update_of_ne hi]
        exact Or.inl ((hf.mem i q.addr).mpr ⟨q, hq, rfl, hnew.symm.trans hnow⟩)

/-- No timer is filed behind a wheel: the word there stays `NULL`. -/
lemma Filed.behind (hf : Filed t B pend) (w : ℕ) : t.wheel (w, slotPerWheel) = none := by
  have hempty : B (w, slotPerWheel) = [] := by
    refine List.eq_nil_iff_forall_not_mem.mpr fun a ha => ?_
    obtain ⟨q, -, -, hq⟩ := (hf.mem (w, slotPerWheel) a).mp ha
    exact absurd (place_slot_lt t.slotNow q.tick) (by rw [hq]; exact Nat.lt_irrefl _)
  have hchain := hf.chains.chain (w, slotPerWheel)
  rw [hempty] at hchain
  exact hchain

/-! ## A tick up to the callbacks -/

lemma updateWheel_of_lt {i : ℕ} (h : t.slotNow i < slotPerWheel) : t.updateWheel i = .ok t :=
  if_pos h

/-- **A wheel comes round.** -/
lemma Filed.updateWheel (hf : Filed t B pend) (i slot : ℕ) {slotNow : ℕ → ℕ}
    (hround : t.slotNow i = slotPerWheel) (hslot : t.slotNow (i + 1) + 1 = slot)
    (hle : slot ≤ slotPerWheel)
    (hpos : slotNow = Function.update (Function.update t.slotNow i 0) (i + 1) slot)
    (hplace : ∀ p ∈ pend, if place t.slotNow p.tick = (i + 1, slot) then
      place slotNow p.tick ≠ (i + 1, slot) else place slotNow p.tick = place t.slotNow p.tick) :
    ∃ t' B', t.updateWheel i = .ok t' ∧ SameTime { t with slotNow := slotNow } t' ∧
      t'.handle = t.handle ∧ Filed t' B' pend := by
  have hu : u32 (t.slotNow (i + 1) + 1) = slot := by
    rw [hslot]
    exact u32_of_lt (Nat.lt_of_le_of_lt hle (by decide))
  obtain ⟨t', B', hrun, hsame, hhandle, hf'⟩ := Filed.refile (t := { t with slotNow := slotNow })
    t.slotNow (i + 1, slot) hf hle hplace
  refine ⟨t', B', ?_, hsame, hhandle, hf'⟩
  rw [EvTimer.updateWheel, if_neg (by omega), hu]
  dsimp only
  rw [← hpos]
  exact hrun

/-- What the turn of the wheels to the tick `n` does: it keeps the pending timers filed. -/
def TurnsTo (n : ℕ) (t : EvTimer) (pend : List PTimer) (x : Except Fault EvTimer) : Prop :=
  ∃ t' B' slotNow, x = .ok t' ∧ At slotNow n ∧ SameTime { t with slotNow := slotNow } t' ∧
    t'.handle = t.handle ∧ Filed t' B' pend

section Turning

variable {n : ℕ} {slotNow : ℕ → ℕ}

/-- No wheel comes round. -/
lemma Filed.turn_none (hf : Filed t B pend) (hat : At slotNow n)
    (hpos : t.slotNow = Function.update slotNow 0 (n % 1024 + 1)) (hcarry : (n + 1) % 1024 ≠ 0) :
    TurnsTo (n + 1) t pend (t.updateWheel 0 >>= fun t => t.updateWheel 1) := by
  have h1 : slotNow 1 = n / 1024 % 1024 := hat.second
  have h2 : slotNow 2 = n / 1048576 := hat.third
  have hat' : At t.slotNow (n + 1) := by
    refine ⟨?_, ?_, ?_⟩ <;> simp only [hpos, slotPerWheel] <;> simp <;> omega
  refine ⟨t, B, t.slotNow, ?_, hat', SameTime.refl t, rfl, hf⟩
  rw [updateWheel_of_lt, ok_bind, updateWheel_of_lt]
  · rw [hat'.second]
    exact Nat.mod_lt _ (by decide)
  · rw [hat'.first]
    exact Nat.mod_lt _ (by decide)

/-- The first wheel comes round. -/
lemma Filed.turn_first (hf : Filed t B pend) (hat : At slotNow n)
    (hpos : t.slotNow = Function.update slotNow 0 (n % 1024 + 1)) (hcarry : (n + 1) % 1024 = 0)
    (hupper : (n + 1) / 1024 % 1024 ≠ 0) :
    TurnsTo (n + 1) t pend (t.updateWheel 0 >>= fun t => t.updateWheel 1) := by
  have h1 : slotNow 1 = n / 1024 % 1024 := hat.second
  have h2 : slotNow 2 = n / 1048576 := hat.third
  set slotNow' : ℕ → ℕ := Function.update (Function.update t.slotNow 0 0) 1
    (n / 1024 % 1024 + 1) with hslotNow'
  have hat' : At slotNow' (n + 1) := by
    refine ⟨?_, ?_, ?_⟩ <;> simp only [hslotNow', hpos, slotPerWheel] <;> simp <;> omega
  obtain ⟨t', B', hrun, hsame, hhandle, hf'⟩ := hf.updateWheel 0 (n / 1024 % 1024 + 1)
    (by
      rw [hpos]
      show n % 1024 + 1 = 1024
      omega)
    (by
      rw [hpos]
      show slotNow 1 + 1 = _
      rw [h1])
    (by
      rw [slotPerWheel]
      omega)
    hslotNow'
    (fun p _ => by
      have hplace : place t.slotNow p.tick = place slotNow p.tick :=
        place_congr (by rw [hpos]; rfl) (by rw [hpos]; rfl)
      rw [hplace]
      exact place_of_carry hat hat' hcarry hupper)
  refine ⟨t', B', slotNow', ?_, hat', hsame, hhandle, hf'⟩
  rw [hrun, ok_bind, updateWheel_of_lt]
  rw [hsame.slotNow]
  show n / 1024 % 1024 + 1 < 1024
  omega

/-- Both wheels come round.  The first one leads to the word behind the end of the second one. -/
lemma Filed.turn_second (hf : Filed t B pend) (hat : At slotNow n)
    (hpos : t.slotNow = Function.update slotNow 0 (n % 1024 + 1))
    (hcarry : (n + 1) % 1048576 = 0) (hlt : ∀ p ∈ pend, n < p.tick)
    (hn : n + 1 < 2 ^ 30 + 2 ^ 20) :
    TurnsTo (n + 1) t pend (t.updateWheel 0 >>= fun t => t.updateWheel 1) := by
  have h1 : slotNow 1 = n / 1024 % 1024 := hat.second
  have h2 : slotNow 2 = n / 1048576 := hat.third
  have hplace : ∀ slotNow' : ℕ → ℕ, slotNow' 2 = slotNow 2 → ∀ p ∈ pend,
      place slotNow' p.tick = place slotNow p.tick := fun slotNow' h p hp =>
    place_of_upper_carry hat hcarry (hlt p hp) (hf.limit p hp) h
  have hthird : t.slotNow 2 = slotNow 2 := by
    rw [hpos]
    rfl
  obtain ⟨t₁, B₁, hrun₁, hsame₁, hhandle₁, hf₁⟩ := hf.updateWheel 0 slotPerWheel
    (by
      rw [hpos]
      show n % 1024 + 1 = 1024
      omega)
    (by
      rw [hpos]
      show slotNow 1 + 1 = 1024
      omega)
    le_rfl rfl
    (fun p hp => by
      rw [if_neg fun h => absurd (place_slot_lt t.slotNow p.tick) (by rw [h]; omega),
        hplace t.slotNow hthird p hp]
      refine hplace _ ?_ p hp
      exact hthird)
  have hthird₁ : t₁.slotNow 2 = slotNow 2 := by
    rw [hsame₁.slotNow]
    exact hthird
  set slotNow' : ℕ → ℕ := Function.update (Function.update t₁.slotNow 1 0) 2
    (n / 1048576 + 1) with hslotNow'
  have hat' : At slotNow' (n + 1) := by
    refine ⟨?_, ?_, ?_⟩ <;> simp only [hslotNow', hsame₁.slotNow, slotPerWheel] <;> simp <;> omega
  obtain ⟨t₂, B₂, hrun₂, hsame₂, hhandle₂, hf₂⟩ := hf₁.updateWheel 1 (n / 1048576 + 1)
    (by
      rw [hsame₁.slotNow]
      rfl)
    (by
      show t₁.slotNow 2 + 1 = _
      rw [hthird₁, h2])
    (by
      rw [slotPerWheel]
      omega)
    hslotNow'
    (fun p hp => by
      rw [hplace _ hthird₁ p hp]
      exact place_of_third_carry hat hat' hcarry (hlt p hp) (hf.limit p hp))
  refine ⟨t₂, B₂, slotNow', by rw [hrun₁, ok_bind, hrun₂], hat', ?_, hhandle₂.trans hhandle₁, hf₂⟩
  exact ⟨hsame₂.ticknow.trans hsame₁.ticknow, hsame₂.tickInterval.trans hsame₁.tickInterval,
    hsame₂.slotNow, hsame₂.buf.trans hsame₁.buf, hsame₂.bufEnd.trans hsame₁.bufEnd⟩

end Turning

/-- **The wheels turn** to the next tick, and every pending timer is in the bucket of its tick
again. -/
lemma Filed.advance {n : ℕ} (hf : Filed t B pend) (hat : At t.slotNow n) (hnow : t.ticknow = n)
    (hlt : ∀ p ∈ pend, n < p.tick) (hn : n + 1 < 2 ^ 30 + 2 ^ 20) :
    TurnsTo (n + 1) { t with ticknow := n + 1 } pend t.advance := by
  set t₁ : EvTimer := { t with
    ticknow := n + 1
    slotNow := Function.update t.slotNow 0 (n % 1024 + 1) } with ht₁
  have hadvance : t.advance = t₁.updateWheel 0 >>= fun t => t.updateWheel 1 := by
    have h0 : t.slotNow 0 = n % 1024 := hat.first
    rw [EvTimer.advance, hnow, u32_of_lt (by omega), h0, u32_of_lt (by omega)]
  have hf₁ : Filed t₁ B pend := by
    refine ⟨⟨hf.books.info, hf.books.handle_nodup, hf.books.map, hf.books.pool⟩, hf.chains,
      fun i a => ?_, hf.limit⟩
    rw [hf.mem]
    refine exists_congr fun q => and_congr_right fun _ => and_congr_right fun _ => ?_
    have hplace : place t₁.slotNow q.tick = place t.slotNow q.tick := place_congr rfl rfl
    rw [hplace]
  suffices h : TurnsTo (n + 1) t₁ pend t.advance from h
  rw [hadvance]
  by_cases hcarry : (n + 1) % 1024 = 0
  · by_cases hupper : (n + 1) / 1024 % 1024 = 0
    · exact hf₁.turn_second hat rfl (by omega) hlt hn
    · exact hf₁.turn_first hat rfl hcarry hupper
  · exact hf₁.turn_none hat rfl hcarry

/-- At the latest where it would leave the third wheel altogether, the process has to be restarted.
-/
lemma advance_error (hat : At t.slotNow (2 ^ 30 + 2 ^ 20 - 1))
    (hbehind : t.wheel (1, slotPerWheel) = none) : t.advance = .error .badAccess := by
  rw [slotPerWheel] at hbehind
  have h0 : t.slotNow 0 = 1023 := hat.first
  have h1 : t.slotNow 1 = 1023 := hat.second
  have h2 : t.slotNow 2 = 1024 := hat.third
  simp [EvTimer.advance, EvTimer.updateWheel, h0, h1, h2, slotPerWheel, u32, wheelAt, moveFrom,
    setWheel, hbehind]
  rfl

end Moving

/-! ## Deleting a bucket -/

section Deleting

variable {t : EvTimer} {B : ℕ × ℕ → List ℕ} {pend gone : List PTimer}

/-- The timers left when those of a list are gone. -/
def without (pend gone : List PTimer) : List PTimer :=
  pend.filter fun q => q.handle ∉ gone.map PTimer.handle

lemma mem_without {q : PTimer} :
    q ∈ without pend gone ↔ q ∈ pend ∧ q.handle ∉ gone.map PTimer.handle := by
  simp [without]

/-- **The loop that deletes a bucket** gives up the timers from `p` on.  The other buckets are sound
all the time, seen without the head `c` of this one. -/
lemma deleteFrom_eq {c : ℕ × ℕ} {p : Option ℕ} {fuel : ℕ} (hb : Books t pend)
    (hch : Chains (nexts t.entries) (Function.update t.wheel c none) B)
    (hgone : Chain (nexts t.entries) p (gone.map PTimer.addr)) (hsub : gone ⊆ pend)
    (hnot : ∀ q ∈ gone, ∀ i, q.addr ∉ B i) (hfuel : gone.length ≤ fuel) :
    ∃ t', deleteFrom fuel t p = .ok (t', gone.map fun q => .freed q.handle) ∧ SameTime t t' ∧
      t'.handle = t.handle ∧ Books t' (without pend gone) ∧
      Chains (nexts t'.entries) (Function.update t'.wheel c none) B := by
  induction gone generalizing t pend p fuel with
  | nil =>
      obtain rfl : p = none := hgone
      have hall : without pend [] = pend := by simp [without]
      exact ⟨t, by rw [deleteFrom]; rfl, SameTime.refl t, rfl, hall.symm ▸ hb, hch⟩
  | cons q gone ih =>
      obtain ⟨fuel, rfl⟩ := Nat.exists_eq_succ_of_ne_zero
        (Nat.ne_of_gt (Nat.lt_of_lt_of_le (Nat.succ_pos _) hfuel))
      have hnodup := hgone.nodup
      obtain ⟨rfl, hrest⟩ := hgone
      have hq : q ∈ pend := hsub List.mem_cons_self
      obtain ⟨nx, hcell, hnx⟩ := hb.entry hq
      obtain ⟨m, hrem, hm⟩ := hb.removeGet hq
      obtain ⟨pool, entries, hfree, hcells, hbuf, hend, hb₁⟩ := hb.release hq hm
      have hnexts : ∀ a, a ≠ q.addr → nexts entries a = nexts t.entries a :=
        fun a ha => nexts_congr (hcells a ha)
      have haddr : ∀ r ∈ gone, r.addr ≠ q.addr := fun r hr he =>
        (List.nodup_cons.mp hnodup).1 (he ▸ List.mem_map_of_mem hr)
      obtain ⟨t', hdel, hsame, hhandle, hb', hch'⟩ := ih (p := nx) hb₁
        (hch.congr fun i a ha => hnexts a fun he => hnot q List.mem_cons_self i (he ▸ ha))
        (by
          rw [← hnx]
          refine hrest.congr fun a ha => ?_
          obtain ⟨r, hr, rfl⟩ := List.mem_map.mp ha
          exact hnexts _ (haddr r hr))
        (fun r hr => List.mem_filter.mpr ⟨hsub (List.mem_cons_of_mem q hr),
          decide_eq_true fun hh => haddr r hr (by
            rw [hb.eq_of_handle (hsub (List.mem_cons_of_mem q hr)) hq hh])⟩)
        (fun r hr => hnot r (List.mem_cons_of_mem q hr)) (Nat.le_of_succ_le_succ hfuel)
      refine ⟨t', ?_, ⟨hsame.ticknow, hsame.tickInterval, hsame.slotNow, hsame.buf.trans hbuf,
        hsame.bufEnd.trans hend⟩, hhandle, ?_, hch'⟩
      · rw [deleteFrom, deref_eq hcell, ok_bind, hrem, ok_bind]
        dsimp only
        rw [hfree, ok_bind]
        dsimp only
        rw [hdel]
        rfl
      · have hfilter : without pend (q :: gone) =
            without (pend.filter fun r => r.handle ≠ q.handle) gone := by
          rw [without, without, List.filter_filter]
          refine List.filter_congr fun r _ => ?_
          rw [Bool.eq_iff_iff]
          simp [and_comm]
        rw [hfilter]
        exact hb'

/-- **The last part of a tick**: the current bucket is deleted. -/
lemma Filed.deleteBucket (hf : Filed t B pend) {c : ℕ × ℕ} (hc : c.2 < slotPerWheel)
    (hgone : B c = gone.map PTimer.addr) (hsub : gone ⊆ pend) :
    ∃ t' t'', deleteFrom t.entries.bound t (B c).head? =
        .ok (t', gone.map fun q => .freed q.handle) ∧
      t'.setWheel c.1 c.2 none = .ok t'' ∧ SameTime t t' ∧ SameTime t t'' ∧
      t''.handle = t.handle ∧ Filed t'' (Function.update B c []) (without pend gone) := by
  have hchain := hf.chains.chain c
  have hlen : gone.length ≤ t.entries.bound := by
    rw [hgone] at hchain
    have hle := Heap.length_le_bound (h := t.entries) hchain.nodup fun a ha => by
      obtain ⟨q, hq, rfl⟩ := List.mem_map.mp ha
      exact hf.books.live (hsub hq)
    rwa [List.length_map] at hle
  have hplace : ∀ q ∈ gone, place t.slotNow q.tick = c := fun q hq => by
    obtain ⟨r, hr, hra, hc⟩ := (hf.mem c q.addr).mp (hgone ▸ List.mem_map_of_mem hq)
    rwa [hf.books.eq_of_addr hr (hsub hq) hra] at hc
  rw [← hchain.head_eq]
  obtain ⟨t', hdel, hsame, hhandle, hb', hch'⟩ := deleteFrom_eq hf.books (hf.chains.clear c)
    (hgone ▸ hchain) hsub (fun q hq i hi => by
      rcases eq_or_ne i c with rfl | hne
      · simp at hi
      · rw [Function.update_of_ne hne] at hi
        exact hne (hf.chains.disjoint i c q.addr hi (hgone ▸ List.mem_map_of_mem hq))) hlen
  refine ⟨t', _, hdel, setWheel_eq (Nat.le_of_lt hc) none, hsame,
    ⟨hsame.ticknow, hsame.tickInterval, hsame.slotNow, hsame.buf, hsame.bufEnd⟩, hhandle,
    ⟨hb'.info, hb'.handle_nodup, hb'.map, hb'.pool⟩, hch', fun i a => ?_, fun q hq => ?_⟩
  · show _ ↔ ∃ q ∈ without pend gone, q.addr = a ∧ place t'.slotNow q.tick = i
    rw [hsame.slotNow]
    constructor
    · intro ha
      rcases eq_or_ne i c with rfl | hne
      · simp at ha
      · rw [Function.update_of_ne hne, hf.mem] at ha
        obtain ⟨q, hq, rfl, hi⟩ := ha
        refine ⟨q, mem_without.mpr ⟨hq, fun hh => ?_⟩, rfl, hi⟩
        obtain ⟨r, hr, hrh⟩ := List.mem_map.mp hh
        rw [← hf.books.eq_of_handle (hsub hr) hq hrh, hplace r hr] at hi
        exact hne hi.symm
    · rintro ⟨q, hq, rfl, hi⟩
      obtain ⟨hq, hnot⟩ := mem_without.mp hq
      have hmem : q.addr ∈ B i := (hf.mem i q.addr).mpr ⟨q, hq, rfl, hi⟩
      rcases eq_or_ne i c with rfl | hne
      · rw [hgone] at hmem
        obtain ⟨r, hr, hra⟩ := List.mem_map.mp hmem
        rw [hf.books.eq_of_addr (hsub hr) hq hra] at hr
        exact absurd (List.mem_map_of_mem hr) hnot
      · rwa [Function.update_of_ne hne]
  · exact hf.limit q (mem_without.mp hq).1

end Deleting

end EvTimer

end Axon
