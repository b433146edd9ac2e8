import Axon.Codegen.CodecStrings

/-!
# What the bytes of a message determine

64-bit fields and long strings do not survive `unpack`.  Nothing of them is lost on the wire: `pack`
writes different bytes for different messages, and no message is the beginning of another, so that
what goes wrong goes wrong in the reader.

* **`Typed`** : the fields of fixed width hold values of their types, of any width.
* **`encodeWire_inj`**, **`encodeWires_inj`** : the bytes of a field, and of a list of fields, can
  be told from what follows them.
* **`wire_unambiguous`** : two messages `pack` has written alike are the same.
-/

namespace Axon

open Library

namespace Codegen

variable {ν : Type}

/-- The fields of fixed width hold values of their types. -/
def Typed (msg : Message ν) (fields : List (WireField ν)) : Prop :=
  ∀ f ∈ fields, ∀ ft, f.type = .fixed ft → ft.InRange (msg.member f.name)

/-! ## One field -/

/-- The bytes of a value of a type determine it. -/
lemma leBytes_inj {ft : FieldType} {v w : ℤ} (hv : ft.InRange v) (hw : ft.InRange w)
    (h : leBytes (fieldLen ft) v = leBytes (fieldLen ft) w) : v = w := by
  have hbmod : v.bmod (256 ^ fieldLen ft) = w.bmod (256 ^ fieldLen ft) := by
    rw [← bmod_leValue, h, bmod_leValue]
  calc v = ft.convert v := hv.symm
    _ = ft.convert (v.bmod (256 ^ fieldLen ft)) := (ft.convert_bmod v).symm
    _ = ft.convert (w.bmod (256 ^ fieldLen ft)) := congrArg ft.convert hbmod
    _ = ft.convert w := ft.convert_bmod w
    _ = w := hw

/-- The two bytes of a length determine it, as the reader should put them together. -/
lemma leBytes_len_inj {m n : ℕ} (hm : m < 2 ^ 16) (hn : n < 2 ^ 16)
    (h : leBytes 2 (m : ℤ) = leBytes 2 n) : m = n := by
  have hvalue := congrArg leValue h
  rw [leValue_leBytes, leValue_leBytes] at hvalue
  omega

/-- A string on the wire and what follows it can be told apart. -/
lemma text_inj {t u : CString} {as bs : List UInt8} (ht : t.1.length < 65535)
    (hu : u.1.length < 65535)
    (h : leBytes 2 (storedLen t) ++ (t.1 ++ [0]) ++ as =
      leBytes 2 (storedLen u) ++ (u.1 ++ [0]) ++ bs) : t = u ∧ as = bs := by
  rw [List.append_assoc (leBytes 2 _), List.append_assoc (leBytes 2 _)] at h
  obtain ⟨hlen, hrest⟩ := List.append_inj h (by simp)
  have hstored : storedLen t = storedLen u :=
    leBytes_len_inj (by rw [storedLen]; omega) (by rw [storedLen]; omega) hlen
  obtain ⟨htext, has⟩ := List.append_inj hrest (by simpa [storedLen] using hstored)
  exact ⟨Subtype.ext (List.append_inj_left' htext rfl), has⟩

/-- **A field on the wire** and what follows it can be told apart. -/
lemma encodeWire_inj {msg msg' : Message ν} {f : WireField ν} {as bs : List UInt8}
    (htyped : ∀ ft, f.type = .fixed ft → ft.InRange (msg.member f.name))
    (htyped' : ∀ ft, f.type = .fixed ft → ft.InRange (msg'.member f.name))
    (hshort : f.type = .varstr → (msg.text f.name).1.length < 65535)
    (hshort' : f.type = .varstr → (msg'.text f.name).1.length < 65535)
    (h : encodeWire msg f ++ as = encodeWire msg' f ++ bs) : Restored msg' msg f ∧ as = bs := by
  obtain ⟨name, type⟩ := f
  cases type with
  | fixed ft =>
      obtain ⟨hbytes, has⟩ := List.append_inj h (by simp [encodeWire])
      exact ⟨(leBytes_inj (htyped ft rfl) (htyped' ft rfl) hbytes).symm, has⟩
  | varstr =>
      obtain ⟨htext, has⟩ := text_inj (hshort rfl) (hshort' rfl) h
      exact ⟨htext.symm, has⟩

/-! ## A whole body -/

/-- **The fields of a message on the wire** and what follows them can be told apart. -/
lemma encodeWires_inj {msg msg' : Message ν} {fields : List (WireField ν)} {as bs : List UInt8}
    (htyped : Typed msg fields) (htyped' : Typed msg' fields) (hshort : Short msg fields)
    (hshort' : Short msg' fields)
    (h : encodeWires msg fields ++ as = encodeWires msg' fields ++ bs) :
    (∀ f ∈ fields, Restored msg' msg f) ∧ as = bs := by
  induction fields with
  | nil => exact ⟨fun f hf => absurd hf List.not_mem_nil, h⟩
  | cons f fields ih =>
      simp only [encodeWires, List.flatMap_cons, List.append_assoc] at h ih
      obtain ⟨hf, hrest⟩ := encodeWire_inj (htyped f List.mem_cons_self)
        (htyped' f List.mem_cons_self) (hshort f List.mem_cons_self)
        (hshort' f List.mem_cons_self) h
      obtain ⟨hfields, has⟩ := ih (fun g hg => htyped g (List.mem_cons_of_mem f hg))
        (fun g hg => htyped' g (List.mem_cons_of_mem f hg))
        (fun g hg => hshort g (List.mem_cons_of_mem f hg))
        (fun g hg => hshort' g (List.mem_cons_of_mem f hg)) hrest
      exact ⟨List.forall_mem_cons.mpr ⟨hf, hfields⟩, has⟩

/-- The same message takes the same room. -/
lemma shifts_restored {msg msg' : Message ν} {fields : List (WireField ν)}
    (h : ∀ f ∈ fields, Restored msg' msg f) : shifts msg fields = shifts msg' fields := by
  refine congrArg List.sum (List.map_congr_left fun f hf => ?_)
  have hf' := h f hf
  simp only [Restored, shiftOf] at hf' ⊢
  cases hft : f.type with
  | fixed ft => rfl
  | varstr =>
      rw [hft] at hf'
      exact congrArg storedLen hf'.symm

variable [Named ν] [DecidableEq ν]

/-- What `pack` has written is there, where it has returned. -/
lemma shows_packed {body : Schema ν} {msg : Message ν} (hclear : body.Clear)
    (hshort : Short msg body.fields) {mem mem' : ℤ → UInt8} {p ret : ℤ} {avail : ℕ}
    (havail : avail < 2 ^ 32)
    (h : (body.pack msg mem (some p) avail).result = .ok (mem', ret)) :
    Shows mem' p (encodeWires msg body.fields) ∧
      ret = toInt32 (widths body.fields + shifts msg body.fields : ℕ) := by
  rcases pack_cases hshort mem p havail with ⟨hres, -⟩ | ⟨bs, -, hpack, hbytes⟩
  · rw [hres] at h
    cases h
  · obtain rfl := hbytes hclear
    rw [hpack] at h
    obtain ⟨rfl, rfl⟩ := Prod.mk.inj (Except.ok.inj h)
    exact ⟨shows_put _ _ _, rfl⟩

/-- **Two messages that `pack` has written alike are the same**, the 64-bit fields and long strings
included that `unpack` gets wrong.  It is enough that the bytes of the first are among those behind
the start of the second: no message is the beginning of another. -/
theorem wire_unambiguous {body : Schema ν} (hclear : body.Clear) {msg msg' : Message ν}
    (htyped : Typed msg body.fields) (htyped' : Typed msg' body.fields)
    (hshort : Short msg body.fields) (hshort' : Short msg' body.fields)
    {mem₀ mem₀' mem mem' : ℤ → UInt8} {p p' ret ret' : ℤ}
    {avail avail' : ℕ} (havail : avail < 2 ^ 32) (havail' : avail' < 2 ^ 32)
    (hpack : (body.pack msg mem₀ (some p) avail).result = .ok (mem, ret))
    (hpack' : (body.pack msg' mem₀' (some p') avail').result = .ok (mem', ret'))
    (halike : ∀ i < widths body.fields + shifts msg body.fields, mem (p + i) = mem' (p' + i)) :
    (∀ f ∈ body.fields, Restored msg' msg f) ∧ ret = ret' := by
  obtain ⟨hshows, hret⟩ := shows_packed hclear hshort havail hpack
  obtain ⟨hshows', hret'⟩ := shows_packed hclear hshort' havail' hpack'
  have hthere : Shows mem' p' (encodeWires msg body.fields) := by
    refine Eq.trans (window_congr fun i hi => ?_) hshows
    rw [length_encodeWires] at hi
    simp only [ahead, Nat.zero_add]
    exact (halike i hi).symm
  obtain ⟨cs, ds, heq⟩ := hthere.comparable hshows'
  obtain ⟨hfields, -⟩ := encodeWires_inj htyped htyped' hshort hshort' heq
  exact ⟨hfields, by rw [hret, hret', shifts_restored hfields]⟩

/-- A field of 64 bits alone. -/
def stampOnly : Schema String := ⟨[⟨"stamp", .fixed .uint64⟩], by decide⟩

/-- The numbers 1 and `2 ^ 32`, which `unpack` reads alike, are written differently. -/
theorem wire_unambiguous_stamps : ∃ mem mem' : ℤ → UInt8,
    (stampOnly.pack ⟨fun _ => 1, fun _ => letterA⟩ (fun _ => 0) (some 0) 8).result =
      .ok (mem, 8) ∧
    (stampOnly.pack ⟨fun _ => 2 ^ 32, fun _ => letterA⟩ (fun _ => 0) (some 0) 8).result =
      .ok (mem', 8) ∧
    ¬ ∀ i < 8, mem (0 + (i : ℕ)) = mem' (0 + (i : ℕ)) := by
  have htyped : ∀ v : ℤ, FieldType.uint64.InRange v →
      Typed ⟨fun _ => v, fun _ => letterA⟩ stampOnly.fields := by
    intro v hv f hf ft hft
    rw [List.mem_singleton.mp hf] at hft
    cases hft
    exact hv
  have hshort : ∀ v : ℤ, Short ⟨fun _ => v, fun _ => letterA⟩ stampOnly.fields :=
    fun _ _ _ _ => show 1 < 65535 by decide
  have hpack : ∀ v : ℤ,
      (stampOnly.pack ⟨fun _ => v, fun _ => letterA⟩ (fun _ => 0) (some 0) 8).result =
        .ok (put (fun _ => 0) 0 (encodeWires ⟨fun _ => v, fun _ => letterA⟩ stampOnly.fields),
          8) := by
    intro v
    rcases pack_cases (hshort v) (fun _ => 0) 0 (show 8 < 2 ^ 32 by decide) with
      ⟨-, hlt⟩ | ⟨bs, -, hpack, hbytes⟩
    · exact absurd hlt (Nat.lt_irrefl 8)
    · obtain rfl := hbytes (by decide)
      have hret : toInt32 (widths stampOnly.fields +
          shifts ⟨fun _ => v, fun _ => letterA⟩ stampOnly.fields : ℕ) = 8 :=
        toInt32_of_lt (z := 8) (by decide) (by decide)
      rw [hpack, hret]
  refine ⟨_, _, hpack 1, hpack (2 ^ 32), fun halike => ?_⟩
  obtain ⟨hsame, -⟩ := wire_unambiguous (by decide) (htyped 1 (by decide))
    (htyped (2 ^ 32) (by decide)) (hshort 1) (hshort (2 ^ 32)) (show 8 < 2 ^ 32 by decide)
    (show 8 < 2 ^ 32 by decide) (hpack 1) (hpack (2 ^ 32)) halike
  exact absurd (hsame ⟨"stamp", .fixed .uint64⟩ List.mem_cons_self)
    (show ¬ (2 ^ 32 : ℤ) = 1 by decide)

end Codegen

end Axon
