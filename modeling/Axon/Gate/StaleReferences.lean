import Axon.Gate.Admission

/-!
# References to connections that are gone

The main thread and the worker name a connection by its slot and its id.  `get_connect` and
`close_connect` compare the id with the one the slot holds, which stays there when the connection is
closed.

* **`References`** : runs of `new_connect` and `close_connect`, with the connections that are open.
* **`Stale`** : a reference to a free slot that still holds the id.
* **`Guards`** : a reference is found only when its connection is open, and closing any other
  changes nothing.
* **`guards_iff_not_stale`** : in every run without stale references these are the only ones that
  are not guarded against.
-/

namespace Axon

open Library

namespace Gate

open Codegen ConnectWorker

/-- The connections that are open: for each slot the id of the one in it. -/
abbrev OpenIds := ℕ → Option ℤ

/-- The reference is to an open connection. -/
def OpenIds.Names (o : OpenIds) (vfd hid : ℤ) : Prop := 0 ≤ vfd ∧ o vfd.toNat = some hid

instance (o : OpenIds) (vfd hid : ℤ) : Decidable (o.Names vfd hid) :=
  inferInstanceAs (Decidable (0 ≤ vfd ∧ o vfd.toNat = some hid))

/-- The connection has been closed, if it is open. -/
def OpenIds.close (o : OpenIds) (vfd hid : ℤ) : OpenIds :=
  if o.Names vfd hid then Function.update o vfd.toNat none else o

/-- **A stale reference**: the slot is free and still holds the id. -/
def Stale (w : ConnectWorker) (vfd hid : ℤ) : Prop :=
  ∃ c, w.container.getConnect vfd = some c ∧ c.status = connEmpty ∧ c.hid = hid

/-- **A run** of calls on a new worker with `n` slots, over any number of turns of its loop.  `P` is
the condition on the references passed to `close_connect`. -/
inductive References (P : ConnectWorker → ℤ → ℤ → Prop) (n : ℕ) : ConnectWorker → OpenIds → Prop
  | start {os : Libc} {a : ℕ} {junk : ℤ → PollerEntry} {junkStack : ℕ → ℤ} {timetick idx : ℤ}
      {rsize wsize : ℕ} {mailbox : TpipeT} {w : ConnectWorker}
      (hr : 0 < rsize ∧ rsize < 2 ^ 31) (hw : 0 < wsize ∧ wsize < 2 ^ 31)
      (hstep : ConnectWorker.start os a junk junkStack timetick n rsize wsize mailbox idx = .ok w) :
      References P n w fun _ => none
  | newConnect {w w' : ConnectWorker} {o : OpenIds} {os : Libc} {a : ℕ} {fd hid ip port : ℤ} {i : ℕ}
      (hrun : References P n w o) (hos : os.Total) (hfd : 0 ≤ fd)
      (hstep : w.newConnect os a fd hid ip port = .ok (w', some i)) :
      References P n w' (Function.update o i (some hid))
  | refused {w w' : ConnectWorker} {o : OpenIds} {os : Libc} {a : ℕ} {fd hid ip port : ℤ}
      (hrun : References P n w o) (hos : os.Total) (hfd : 0 ≤ fd)
      (hstep : w.newConnect os a fd hid ip port = .ok (w', none)) : References P n w' o
  | closeConnect {w w' : ConnectWorker} {o : OpenIds} {vfd hid : ℤ} (hrun : References P n w o)
      (hP : P w vfd hid) (hstep : w.closeConnect vfd hid = .ok w') :
      References P n w' (o.close vfd hid)
  | endTurn {w w' : ConnectWorker} {o : OpenIds} (hrun : References P n w o)
      (hstep : w.step .endTurn = .ok w') : References P n w' o

/-- What a run without stale references keeps. -/
structure Tracks (w : ConnectWorker) (n : ℕ) (used : Finset ℕ) (o : OpenIds) : Prop where
  sound : Sound w n used
  mem_iff : ∀ i, i ∈ used ↔ o i ≠ none
  status : ∀ i ∈ used, (w.container.connects i).status = connActive
  hid : ∀ i hid, o i = some hid → (w.container.connects i).hid = hid

/-- **The id guards the reference**: it is found only when its connection is open, and when it is
not open closing it changes nothing. -/
def Guards (w : ConnectWorker) (o : OpenIds) (vfd hid : ℤ) : Prop :=
  ((w.getConnect vfd hid).isSome → o.Names vfd hid) ∧
    (¬ o.Names vfd hid → w.closeConnect vfd hid = .ok w)

section Step

variable {w w' : ConnectWorker} {n : ℕ} {used : Finset ℕ} {o : OpenIds} {vfd hid : ℤ}

/-- What the container finds. -/
lemma Tracks.getConnect_eq_some (h : Tracks w n used o) {c : Connect}
    (hc : w.container.getConnect vfd = some c) :
    ∃ i : ℕ, vfd = i ∧ i < n ∧ c = w.container.connects i := by
  rw [ConnectContainer.getConnect] at hc
  split_ifs at hc with hrange
  rw [h.sound.slots.capacity, not_or] at hrange
  obtain ⟨i, rfl⟩ := Int.eq_ofNat_of_zero_le (Int.not_lt.mp hrange.2)
  exact ⟨i, rfl, by omega, (Option.some.inj hc).symm⟩

/-- A slot in use whose connection has the id holds the open connection of that id. -/
lemma Tracks.names (h : Tracks w n used o) {i : ℕ} (hi : i ∈ used)
    (hhid : (w.container.connects i).hid = hid) : o.Names i hid := by
  obtain ⟨hid', ho⟩ := Option.ne_none_iff_exists'.mp ((h.mem_iff i).mp hi)
  refine ⟨by omega, ?_⟩
  rw [Int.toNat_natCast, ho, ← h.hid i hid' ho, hhid]

/-- **Exactly the stale references are not guarded against.** -/
lemma Tracks.guards_iff (h : Tracks w n used o) : Guards w o vfd hid ↔ ¬ Stale w vfd hid := by
  cases hget : w.container.getConnect vfd with
  | none =>
      have hfind : w.getConnect vfd hid = none := by rw [ConnectWorker.getConnect, hget]
      have hclose : w.closeConnect vfd hid = .ok w := by rw [ConnectWorker.closeConnect, hget]
      constructor
      · rintro - ⟨c, hc, -⟩
        exact absurd (hget.symm.trans hc) (by simp)
      · intro _
        refine ⟨?_, fun _ => hclose⟩
        rw [hfind]
        simp
  | some c =>
      obtain ⟨i, rfl, hin, rfl⟩ := h.getConnect_eq_some hget
      by_cases hhid : (w.container.connects i).hid = hid
      · have hfind : w.getConnect i hid = some (w.container.connects i) := by
          rw [ConnectWorker.getConnect, hget]
          exact if_neg (not_not.mpr hhid)
        by_cases hi : i ∈ used
        · have hnames := h.names hi hhid
          constructor
          · rintro - ⟨c, hc, hempty, -⟩
            obtain rfl := Option.some.inj (hget.symm.trans hc)
            rw [h.status i hi] at hempty
            exact absurd hempty (by decide)
          · intro _
            exact ⟨fun _ => hnames, absurd hnames⟩
        · constructor
          · rintro ⟨hguard, -⟩
            have hnames := hguard (by rw [hfind]; rfl)
            rw [OpenIds.Names, Int.toNat_natCast] at hnames
            exact absurd ((h.mem_iff i).mpr (by simp [hnames.2])) hi
          · intro hns
            exact absurd ⟨_, hget, h.sound.slots.status i hi, hhid⟩ hns
      · have hfind : w.getConnect i hid = none := by
          rw [ConnectWorker.getConnect, hget]
          exact if_pos hhid
        have hclose : w.closeConnect i hid = .ok w := by
          rw [ConnectWorker.closeConnect, hget]
          exact if_pos hhid
        constructor
        · rintro - ⟨c, hc, -, heq⟩
          obtain rfl := Option.some.inj (hget.symm.trans hc)
          exact hhid heq
        · intro _
          refine ⟨?_, fun _ => hclose⟩
          rw [hfind]
          simp

/-- A connection is admitted into a slot that no open connection has. -/
lemma Tracks.newConnect (h : Tracks w n used o) {os : Libc} {a : ℕ} {fd ip port : ℤ}
    {s : Option ℕ} (hos : os.Total) (hfd : 0 ≤ fd)
    (hstep : w.newConnect os a fd hid ip port = .ok (w', s)) :
    match s with
    | some i => Tracks w' n (insert i used) (Function.update o i (some hid))
    | none => Tracks w' n used o := by
  have hle := h.sound.slots.card_le
  by_cases hfull : used.card = n
  · obtain ⟨rfl, rfl⟩ :=
      Prod.mk.inj (Except.ok.inj ((h.sound.newConnect_full hfull).symm.trans hstep))
    exact h
  · obtain ⟨t, i, hplaced, heq⟩ := h.sound.newConnect_eq (by omega) hos hfd hid ip port
    rw [heq a] at hstep
    obtain ⟨⟨p', v⟩, -, hstep⟩ := bind_eq_ok hstep
    obtain ⟨rfl, rfl⟩ := Prod.mk.inj (Except.ok.inj hstep)
    refine ⟨hplaced.sound p', fun j => ?_, fun j hj => ?_, fun j hid' hj => ?_⟩
    · rcases eq_or_ne j i with rfl | hne
      · simp
      · rw [Finset.mem_insert, Function.update_of_ne hne, ← h.mem_iff j]
        simp [hne]
    · rcases eq_or_ne j i with rfl | hne
      · exact hplaced.serves.status
      · have hj' := Finset.mem_of_mem_insert_of_ne hj hne
        exact (congrArg Connect.status (hplaced.rest j hne)).trans (h.status j hj')
    · rcases eq_or_ne j i with rfl | hne
      · rw [Function.update_self] at hj
        exact hplaced.serves.hid.trans (Option.some.inj hj)
      · rw [Function.update_of_ne hne] at hj
        exact (congrArg Connect.hid (hplaced.rest j hne)).trans (h.hid j hid' hj)

/-- A reference that is not stale closes the open connection it names, if there is one. -/
lemma Tracks.closeConnect (h : Tracks w n used o) (hns : ¬ Stale w vfd hid)
    (hstep : w.closeConnect vfd hid = .ok w') : ∃ used', Tracks w' n used' (o.close vfd hid) := by
  by_cases hnames : o.Names vfd hid
  · obtain ⟨i, rfl⟩ := Int.eq_ofNat_of_zero_le hnames.1
    have ho : o i = some hid := hnames.2
    have hi : i ∈ used := (h.mem_iff i).mpr (by simp [ho])
    rw [h.sound.closeConnect_eq hi (h.hid i hid ho)] at hstep
    obtain ⟨⟨p', v⟩, -, hstep⟩ := bind_eq_ok hstep
    obtain rfl := Except.ok.inj hstep
    have hrest := fun j hne => w.container.delist_core_of_ne (i := i) (j := j) hne
    refine ⟨used.erase i, h.sound.delist hi p', fun j => ?_, fun j hj => ?_, fun j hid' hj => ?_⟩
    · rw [OpenIds.close, if_pos hnames, Int.toNat_natCast]
      rcases eq_or_ne j i with rfl | hne
      · simp
      · rw [Function.update_of_ne hne, ← h.mem_iff j]
        simp [hne]
    · obtain ⟨hne, hj⟩ := Finset.mem_erase.mp hj
      exact (congrArg Connect.status (hrest j hne)).trans (h.status j hj)
    · rw [OpenIds.close, if_pos hnames, Int.toNat_natCast] at hj
      have hne : j ≠ i := by
        rintro rfl
        simp at hj
      rw [Function.update_of_ne hne] at hj
      exact (congrArg Connect.hid (hrest j hne)).trans (h.hid j hid' hj)
  · obtain rfl := Except.ok.inj ((((h.guards_iff).mpr hns).2 hnames).symm.trans hstep)
    rw [OpenIds.close, if_neg hnames]
    exact ⟨used, h⟩

end Step

/-- **Runs without stale references.** -/
lemma References.tracks {n : ℕ} {w : ConnectWorker} {o : OpenIds} (hn : n < 2 ^ 31)
    (h : References (fun w vfd hid => ¬ Stale w vfd hid) n w o) :
    ∃ used, Tracks w n used o := by
  induction h with
  | start hr hw hstep => exact ⟨∅, sound_start hstep hn hr hw, by simp, by simp, by simp⟩
  | newConnect _ hos hfd hstep ih =>
      obtain ⟨used, ht⟩ := ih
      exact ⟨_, ht.newConnect hos hfd hstep⟩
  | refused _ hos hfd hstep ih =>
      obtain ⟨used, ht⟩ := ih
      exact ⟨used, ht.newConnect hos hfd hstep⟩
  | closeConnect _ hP hstep ih =>
      obtain ⟨used, ht⟩ := ih
      exact ht.closeConnect hP hstep
  | endTurn _ hstep ih =>
      obtain ⟨used, ht⟩ := ih
      rw [ConnectWorker.step] at hstep
      obtain ⟨⟨p', log⟩, -, hstep⟩ := bind_eq_ok hstep
      obtain rfl := Except.ok.inj hstep
      have hs := ht.sound
      exact ⟨used, ⟨hs.slots, hs.usable, hs.rsize, hs.wsize⟩, ht.mem_iff, ht.status, ht.hid⟩

/-- **When the id guards against references to connections that are gone.**  In every run in which
no stale reference is passed to `close_connect`: the slots in use are those of the open connections,
and the counters and the free stack agree with them; and for every slot and id, `get_connect` finds
it only when it is an open connection, and `close_connect` of one that is not open changes nothing,
if and only if the reference is not stale. -/
theorem guards_iff_not_stale {n : ℕ} {w : ConnectWorker} {o : OpenIds} (hn : n < 2 ^ 31)
    (hrun : References (fun w vfd hid => ¬ Stale w vfd hid) n w o) :
    (∃ used, w.container.Slots n used ∧ ∀ i, i ∈ used ↔ o i ≠ none) ∧
    ∀ vfd hid, Guards w o vfd hid ↔ ¬ Stale w vfd hid := by
  obtain ⟨used, ht⟩ := hrun.tracks hn
  exact ⟨⟨used, ht.sound.slots, ht.mem_iff⟩, fun _ _ => ht.guards_iff⟩

lemma references_startSome {n : ℕ} {w : ConnectWorker} (h : startSome n = .ok w)
    (P : ConnectWorker → ℤ → ℤ → Prop) : References P n w fun _ => none := by
  obtain ⟨mailbox, -, h⟩ := bind_eq_ok h
  exact .start (by decide) (by decide) h

/-- A connection with the id 7 in slot 0: another id is guarded against. -/
theorem guards_iff_not_stale_open :
    ∃ w o, References (fun w vfd hid => ¬ Stale w vfd hid) 4 w o ∧ o 0 = some 7 ∧
      Guards w o 0 8 := by
  have h₀ := references_startSome (show startSome 4 = .ok _ from rfl)
    fun w vfd hid => ¬ Stale w vfd hid
  have h₁ := h₀.newConnect zeroLibc_total (show (0 : ℤ) ≤ 2 by decide)
    (show ConnectWorker.newConnect zeroLibc 0 _ 2 7 0 80 = .ok (_, some 0) from rfl)
  refine ⟨_, _, h₁, rfl, ((guards_iff_not_stale (by decide) h₁).2 0 8).mpr ?_⟩
  rintro ⟨c, hc, -, hhid⟩
  obtain rfl := Option.some.inj hc
  exact absurd hhid (by decide)

/-- A connection that has been closed is found again and can be closed again; then no connection is
counted although one is open, and of the next two connections the second is refused because the
stack holds the slot twice. -/
theorem guards_iff_not_stale_fails :
    (∃ w o, References (fun _ _ _ => True) 4 w o ∧ ¬ o.Names 0 7 ∧
      (w.getConnect 0 7).isSome ∧ ¬ Guards w o 0 7) ∧
    ∃ w w' w'' o, References (fun _ _ _ => True) 4 w o ∧ o 1 = some 8 ∧ w.container.count = 0 ∧
      w.newConnect zeroLibc 0 1 9 0 80 = .ok (w', some 0) ∧
      w'.newConnect zeroLibc 0 0 10 0 80 = .ok (w'', none) := by
  have h₀ := references_startSome (show startSome 4 = .ok _ from rfl) fun _ _ _ => True
  have h₁ := h₀.newConnect zeroLibc_total (show (0 : ℤ) ≤ 2 by decide)
    (show ConnectWorker.newConnect zeroLibc 0 _ 2 7 0 80 = .ok (_, some 0) from rfl)
  have h₂ := h₁.newConnect zeroLibc_total (show (0 : ℤ) ≤ 3 by decide)
    (show ConnectWorker.newConnect zeroLibc 0 _ 3 8 0 80 = .ok (_, some 1) from rfl)
  have h₃ := h₂.closeConnect trivial
    (show ConnectWorker.closeConnect _ 0 7 = .ok _ from rfl)
  have h₄ := h₃.closeConnect trivial
    (show ConnectWorker.closeConnect _ 0 7 = .ok _ from rfl)
  refine ⟨⟨_, _, h₃, by decide, rfl, fun hguard => ?_⟩, _, _, _, _, h₄, by decide, by decide, rfl,
    rfl⟩
  exact absurd (hguard.1 rfl) (by decide)

end Gate

end Axon
