import DocQuery.Text.Case
import Mathlib.Data.List.Basic

/-!
# Upper case is final

No letter that the case tables move to is one that they move (`images_apart`), so a letter in
upper case is its own upper case, and a text in upper case stays as it is (`upper_upper`). Upper
case brings no sign into a text, since letters move to letters only (`eq_of_mem_upperChar`).
-/

namespace DocQuery.Text

-- ── Runs apart ──────────────────────────────────────────────────────────────

namespace CaseRun

/-- The run of a single code point, which stays where it is. -/
def single (n : Nat) : CaseRun :=
  ⟨n, n, 1, 0⟩

/-- The code points that the run moves its own to. -/
def image (r : CaseRun) : CaseRun :=
  ⟨(r.first + r.shift).toNat, (r.last + r.shift).toNat, r.step, 0⟩

/-- The code point is one of the run. -/
def Holds (r : CaseRun) (n : Nat) : Prop :=
  r.first ≤ n ∧ n ≤ r.last ∧ (n - r.first) % r.step = 0

/-- No code point is in both runs: one ends before the other begins, or they interleave. -/
def apart (r s : CaseRun) : Bool :=
  Nat.blt r.last s.first || (Nat.blt s.last r.first || (Nat.beq s.step 2 &&
    ((Nat.beq r.step 2 || Nat.beq r.first r.last) && Nat.beq ((r.first + s.first) % 2) 1)))

/-- The code points of the run are characters. -/
def valid (r : CaseRun) : Bool :=
  Nat.blt r.last 0xd800 || (Nat.ble 0xe000 r.first && Nat.blt r.last 0x110000)

variable {r s : CaseRun} {m n : Nat}

/-- A run moves what it holds by its shift. -/
theorem moved?_eq_some (h : r.moved? n = some m) : r.Holds n ∧ m = (n + r.shift).toNat := by
  rw [moved?] at h
  split at h
  · exact ⟨‹_›, (Option.some.inj h).symm⟩
  · cases h

theorem moved?_eq_none (h : ¬ r.Holds n) : r.moved? n = none :=
  if_neg h

/-- What is moved is in the image. -/
theorem holds_image (hlow : 0 ≤ r.first + r.shift) (h : r.moved? n = some m) :
    r.image.Holds m := by
  obtain ⟨⟨hfirst, hlast, hstep⟩, rfl⟩ := moved?_eq_some h
  refine ⟨?_, ?_, ?_⟩
  · show (r.first + r.shift).toNat ≤ _
    omega
  · show _ ≤ (r.last + r.shift).toNat
    omega
  · show ((n + r.shift).toNat - (r.first + r.shift).toNat) % r.step = 0
    have hdist : (n + r.shift).toNat - (r.first + r.shift).toNat = n - r.first := by omega
    rw [hdist, hstep]

/-- Runs that are apart hold nothing in common. -/
theorem not_holds_of_apart (h : r.apart s = true) (hr : r.Holds n) : ¬ s.Holds n := by
  rintro ⟨hfirst, hlast, hstep⟩
  obtain ⟨hfirst', hlast', hstep'⟩ := hr
  simp only [apart, Bool.or_eq_true, Bool.and_eq_true, Nat.blt_eq, Nat.beq_eq] at h
  obtain h | h | ⟨hs, hr | hr, hodd⟩ := h
  · omega
  · omega
  · rw [hs] at hstep
    rw [hr] at hstep'
    omega
  · rw [hs] at hstep
    omega

/-- Each run of the one list is apart from each of the other. -/
def pairsApart (rs ss : List CaseRun) : Bool :=
  rs.all fun r => ss.all r.apart

/-- The same, told by parts: runs that share a code point begin below the cut, or both reach it. -/
def partsApart : List Nat → List CaseRun → List CaseRun → Bool
  | [], rs, ss => pairsApart rs ss
  | cut :: cuts, rs, ss =>
    pairsApart (rs.filter fun r => Nat.blt r.first cut) (ss.filter fun s => Nat.blt s.first cut) &&
      partsApart cuts (rs.filter fun r => Nat.ble cut r.last)
        (ss.filter fun s => Nat.ble cut s.last)

theorem not_holds_of_pairsApart {rs ss : List CaseRun} (h : pairsApart rs ss = true) (hr : r ∈ rs)
    (hs : s ∈ ss) (hn : r.Holds n) : ¬ s.Holds n :=
  not_holds_of_apart (List.all_eq_true.mp (List.all_eq_true.mp h r hr) s hs) hn

/-- Runs of two lists hold nothing in common if the parts at each cut are apart. -/
theorem not_holds_of_partsApart {cuts : List Nat} {rs ss : List CaseRun}
    (h : partsApart cuts rs ss = true) (hr : r ∈ rs) (hs : s ∈ ss) (hrn : r.Holds n) :
    ¬ s.Holds n := by
  induction cuts generalizing rs ss with
  | nil => exact not_holds_of_pairsApart h hr hs hrn
  | cons cut cuts ih =>
      intro hsn
      rw [partsApart, Bool.and_eq_true] at h
      rcases Nat.lt_or_ge n cut with hlow | hhigh
      · refine not_holds_of_pairsApart h.1 (List.mem_filter.mpr ⟨hr, ?_⟩)
          (List.mem_filter.mpr ⟨hs, ?_⟩) hrn hsn
        · exact Nat.blt_eq.mpr (Nat.lt_of_le_of_lt hrn.1 hlow)
        · exact Nat.blt_eq.mpr (Nat.lt_of_le_of_lt hsn.1 hlow)
      · refine ih h.2 (List.mem_filter.mpr ⟨hr, ?_⟩) (List.mem_filter.mpr ⟨hs, ?_⟩) hsn
        · exact Nat.ble_eq.mpr (Nat.le_trans hhigh hrn.2.1)
        · exact Nat.ble_eq.mpr (Nat.le_trans hhigh hsn.2.1)

/-- A valid run holds characters only. -/
theorem isValidChar_of_valid (h : r.valid = true) (hn : r.Holds n) : n.isValidChar := by
  obtain ⟨hfirst, hlast, -⟩ := hn
  simp only [valid, Bool.or_eq_true, Bool.and_eq_true, Nat.blt_eq, Nat.ble_eq] at h
  rw [Nat.isValidChar]
  omega

end CaseRun

-- ── The tables ──────────────────────────────────────────────────────────────

/-- The code points that have another upper case. -/
def movingRuns : List CaseRun :=
  ⟨'a'.toNat, 'z'.toNat, 1, -32⟩ :: (widening.map fun p => .single p.1) ++ upperRuns

/-- The code points that those from U+0080 on move to. -/
def imageRuns : List CaseRun :=
  (widening.flatMap Prod.snd).eraseDups.map .single ++ upperRuns.map CaseRun.image

/-- No upper case moves again. The check goes part by part, as there are many runs. -/
theorem images_apart :
    CaseRun.partsApart [0x260, 0x1000, 0x1f90, 0xa700] imageRuns movingRuns = true := by
  decide +kernel

theorem images_valid : ∀ r ∈ imageRuns, r.valid = true := by
  decide +kernel

theorem upperRuns_low : ∀ r ∈ upperRuns, 0 ≤ r.first + r.shift := by
  decide +kernel

theorem images_letters : ∀ r ∈ imageRuns, 'A'.toNat ≤ r.first := by
  decide +kernel

theorem upper_low : ∀ n < 0x80, (Char.ofNat n).toUpper.toNat < 'A'.toNat →
    (Char.ofNat n).toUpper = Char.ofNat n := by
  decide +kernel

theorem upper_ascii : ∀ n < 0x80, upperChar (Char.ofNat n).toUpper = [(Char.ofNat n).toUpper] := by
  decide +kernel

-- ── Upper case ──────────────────────────────────────────────────────────────

/-- A character that no run holds is its own upper case. -/
theorem upperChar_of_not_moving {c : Char} (h : ∀ r ∈ movingRuns, ¬ r.Holds c.toNat) :
    upperChar c = [c] := by
  rw [upperChar]
  split
  · have hletter : ¬ (97 ≤ c.toNat ∧ c.toNat ≤ 122 ∧ (c.toNat - 97) % 1 = 0) :=
      h _ List.mem_cons_self
    have hself : c.toUpper = c := dif_neg fun hc => hletter ⟨hc.1, hc.2, Nat.mod_one _⟩
    rw [hself]
  · have hwide : widening.lookup c.toNat = none := by
      rw [List.lookup_eq_none_iff]
      intro p hp
      have hsingle := h (.single p.1) (by
        rw [movingRuns]
        exact List.mem_append_left _ (List.mem_cons_of_mem _ (List.mem_map_of_mem hp)))
      rw [bne_iff_ne]
      intro heq
      exact hsingle ⟨Nat.le_of_eq heq.symm, Nat.le_of_eq heq, Nat.mod_one _⟩
    have hmoved : upperRuns.findSome? (·.moved? c.toNat) = none := by
      rw [List.findSome?_eq_none_iff]
      intro r hr
      exact CaseRun.moved?_eq_none (h r (List.mem_append_right _ hr))
    rw [hwide, hmoved]

/-- The images are characters. -/
theorem toNat_of_image {r : CaseRun} (hr : r ∈ imageRuns) {n : Nat} (hn : r.Holds n) :
    (Char.ofNat n).toNat = n := by
  rw [Char.ofNat, dif_pos (CaseRun.isValidChar_of_valid (images_valid r hr) hn)]
  rfl

/-- A code point that others move to stays where it is. -/
theorem upperChar_of_image {r : CaseRun} (hr : r ∈ imageRuns) {n : Nat} (hn : r.Holds n) :
    upperChar (Char.ofNat n) = [Char.ofNat n] := by
  refine upperChar_of_not_moving ?_
  intro s hs
  rw [toNat_of_image hr hn]
  exact CaseRun.not_holds_of_partsApart images_apart hr hs hn

/-- What a character is widened to is among the images. -/
theorem mem_imageRuns_of_widening {c : Char} {wide : List Nat}
    (h : widening.lookup c.toNat = some wide) {n : Nat} (hn : n ∈ wide) :
    CaseRun.single n ∈ imageRuns := by
  obtain ⟨before, after, htable, -⟩ := List.lookup_eq_some_iff.mp h
  have hmem : (c.toNat, wide) ∈ widening := by
    rw [htable]
    exact List.mem_append_right _ List.mem_cons_self
  refine List.mem_append_left _ (List.mem_map_of_mem (List.mem_eraseDups.mpr ?_))
  exact List.mem_flatMap.mpr ⟨_, hmem, hn⟩

/-- A letter of an upper case is an ASCII one, one that the tables move to, or the letter itself. -/
theorem cases_of_mem_upperChar {c d : Char} (h : d ∈ upperChar c) :
    (c.toNat < 0x80 ∧ d = c.toUpper) ∨
      (∃ r ∈ imageRuns, ∃ n, r.Holds n ∧ d = Char.ofNat n) ∨ (upperChar c = [c] ∧ d = c) := by
  by_cases hascii : c.toNat < 0x80
  · rw [upperChar, if_pos hascii] at h
    exact Or.inl ⟨hascii, List.mem_singleton.mp h⟩
  refine Or.inr ?_
  cases hwide : widening.lookup c.toNat with
  | some wide =>
      rw [upperChar, if_neg hascii, hwide] at h
      obtain ⟨n, hn, rfl⟩ := List.mem_map.mp h
      exact Or.inl ⟨_, mem_imageRuns_of_widening hwide hn, n,
        ⟨Nat.le_refl _, Nat.le_refl _, Nat.mod_one _⟩, rfl⟩
  | none =>
      cases hmoved : upperRuns.findSome? (·.moved? c.toNat) with
      | some n =>
          rw [upperChar, if_neg hascii, hwide, hmoved] at h
          obtain ⟨r, hr, hmoved⟩ := List.exists_of_findSome?_eq_some hmoved
          exact Or.inl ⟨r.image, List.mem_append_right _ (List.mem_map_of_mem hr), n,
            CaseRun.holds_image (upperRuns_low r hr) hmoved, List.mem_singleton.mp h⟩
      | none =>
          have hself : upperChar c = [c] := by
            rw [upperChar, if_neg hascii, hwide, hmoved]
          rw [hself] at h
          exact Or.inr ⟨hself, List.mem_singleton.mp h⟩

/-- The letters of an upper case are in upper case. -/
theorem upperChar_of_mem {c d : Char} (h : d ∈ upperChar c) : upperChar d = [d] := by
  rcases cases_of_mem_upperChar h with ⟨hascii, rfl⟩ | ⟨r, hr, n, hn, rfl⟩ | ⟨hself, rfl⟩
  · rw [← Char.ofNat_toNat c]
    exact upper_ascii _ hascii
  · exact upperChar_of_image hr hn
  · exact hself

/-- A character below the letters is in the upper case of itself only. -/
theorem eq_of_mem_upperChar {c d : Char} (h : d ∈ upperChar c) (hd : d.toNat < 'A'.toNat) :
    d = c := by
  rcases cases_of_mem_upperChar h with ⟨hascii, rfl⟩ | ⟨r, hr, n, hn, rfl⟩ | ⟨-, rfl⟩
  · rw [← Char.ofNat_toNat c] at hd ⊢
    exact upper_low _ hascii hd
  · rw [toNat_of_image hr hn] at hd
    exact absurd hn.1 (Nat.not_le_of_lt (Nat.lt_of_lt_of_le hd (images_letters r hr)))
  · rfl

/-- A text in upper case stays as it is. -/
theorem upper_upper (s : String) : upper (upper s) = upper s := by
  have hchar : ∀ c, (upperChar c).flatMap upperChar = upperChar c := by
    intro c
    rw [List.flatMap_congr fun d hd => upperChar_of_mem hd, List.flatMap_singleton']
  rw [upper, upper, String.toList_ofList, List.flatMap_assoc]
  congr 2
  exact funext hchar

end DocQuery.Text
