import Mathlib.Tactic.Common
import TextGrammar.Normal.Passes
import TextGrammar.Proofs.Characters

/-!
# Capitals

What normalization relies on in the upper-case mapping: it moves no character that normalization
gives a meaning to, and makes none of another one, and a capital stays as it is
(`Normal.upperChar_cases`).

The table is checked as a whole: sets of code points are compared as the bits of natural numbers.
-/

namespace TextGrammar

namespace Unicode

/-! ## Sets of code points -/

/-- The set of some numbers, as the bits of one number. -/
def bitMask (ns : List Nat) : Nat :=
  ns.foldr (fun n mask => 1 <<< n ||| mask) 0

theorem testBit_bitMask (ns : List Nat) (n : Nat) : (bitMask ns).testBit n = decide (n ∈ ns) := by
  unfold bitMask
  induction ns with
  | nil => simp
  | cons m rest ih =>
    rw [List.foldr_cons, Nat.testBit_or, ih, Nat.one_shiftLeft, Nat.testBit_two_pow]
    by_cases hn : m = n
    · simp [hn]
    · simp [hn, Ne.symm hn]

/-- Sets without a common bit have no common number. -/
theorem not_mem_of_bitMask {ns ms : List Nat} (h : bitMask ns &&& bitMask ms = 0) {n : Nat}
    (hn : n ∈ ns) : n ∉ ms := by
  intro hm
  have hbit : (bitMask ns &&& bitMask ms).testBit n = true := by
    rw [Nat.testBit_and, testBit_bitMask, testBit_bitMask, decide_eq_true hn, decide_eq_true hm]
    rfl
  rw [h, Nat.zero_testBit] at hbit
  cases hbit

/-! ## Case mappings -/

/-- How far the characters of a run lie behind its first one. -/
def CaseRun.steps (run : CaseRun) : List Nat :=
  (List.range (run.last - run.first + 1)).filter fun k => k % run.stride = 0

theorem CaseRun.exists_step {run : CaseRun} {n image : Nat} (h : run.image? n = some image) :
    ∃ k ∈ run.steps, n = run.first + k ∧ image = run.target + k := by
  unfold CaseRun.image? at h
  split at h
  · rename_i hrun
    obtain ⟨hfirst, hlast, hstride⟩ := hrun
    refine ⟨n - run.first, ?_, by omega, (Option.some.inj h).symm⟩
    unfold steps
    rw [List.mem_filter, List.mem_range]
    exact ⟨by omega, decide_eq_true hstride⟩
  · cases h

/-- The code points that a case mapping moves. -/
def caseSources (expansions : List (Nat × List Nat)) (runs : List CaseRun) : List Nat :=
  expansions.map Prod.fst ++ runs.flatMap fun run => run.steps.map fun k => run.first + k

/-- The images of the code points that a case mapping moves. -/
def caseImages (expansions : List (Nat × List Nat)) (runs : List CaseRun) : List (List Nat) :=
  expansions.map Prod.snd ++ runs.flatMap fun run => run.steps.map fun k => [run.target + k]

/-- A case mapping leaves a character alone, or moves it to one of its images. -/
theorem mapCase_cases (expansions : List (Nat × List Nat)) (runs : List CaseRun) (c : Char) :
    mapCase expansions runs c = [c] ∨
      c.toNat ∈ caseSources expansions runs ∧
        ∃ image ∈ caseImages expansions runs, mapCase expansions runs c = image.map Char.ofNat := by
  unfold mapCase caseSources caseImages
  cases hlookup : expansions.lookup c.toNat with
  | some image =>
    obtain ⟨before, after, hexpansions, -⟩ := List.lookup_eq_some_iff.1 hlookup
    have hmem : (c.toNat, image) ∈ expansions := by
      rw [hexpansions]
      simp
    refine Or.inr ⟨?_, image, ?_, rfl⟩
    · exact List.mem_append_left _ (List.mem_map.2 ⟨_, hmem, rfl⟩)
    · exact List.mem_append_left _ (List.mem_map.2 ⟨_, hmem, rfl⟩)
  | none =>
    cases hfind : runs.findSome? (·.image? c.toNat) with
    | none => exact Or.inl rfl
    | some n =>
      obtain ⟨run, hrun, himage⟩ := List.exists_of_findSome?_eq_some hfind
      obtain ⟨k, hk, hsource, rfl⟩ := CaseRun.exists_step himage
      refine Or.inr ⟨?_, [run.target + k], ?_, rfl⟩
      · refine List.mem_append_right _ (List.mem_flatMap.2 ⟨run, hrun, ?_⟩)
        exact List.mem_map.2 ⟨k, hk, hsource.symm⟩
      · refine List.mem_append_right _ (List.mem_flatMap.2 ⟨run, hrun, ?_⟩)
        exact List.mem_map.2 ⟨k, hk, rfl⟩

theorem mapCase_of_not_mem {expansions : List (Nat × List Nat)} {runs : List CaseRun} {c : Char}
    (h : c.toNat ∉ caseSources expansions runs) : mapCase expansions runs c = [c] :=
  (mapCase_cases expansions runs c).resolve_right fun hmoved => h hmoved.1

theorem toNat_ofNat {n : Nat} (h : n.isValidChar) : (Char.ofNat n).toNat = n := by
  rw [Char.ofNat, dif_pos h]
  rfl

end Unicode

namespace Normal

open Unicode

/-- Whether a character stands for a place rather than for itself: whitespace and the two marks. -/
def isGap (c : Char) : Bool :=
  isWhitespace c || c = '^' || c = '\\'

theorem isGap_of_isWhitespace {c : Char} (h : isWhitespace c = true) : isGap c = true := by
  rw [isGap, h, Bool.true_or, Bool.true_or]

theorem eq_mark_of_isGap {c : Char} (h : isGap c = true) (hblank : isWhitespace c = false)
    (hjoin : c ≠ '^') : c = '\\' := by
  rw [isGap, hblank, decide_eq_false hjoin, Bool.false_or, Bool.false_or] at h
  exact of_decide_eq_true h

/-- Whether normalization gives a character a meaning of its own. -/
def isReserved (c : Char) : Bool :=
  isGap c || isPunctuation c

/-- The code points of the reserved characters. -/
def reserved : List Nat :=
  whitespaceRanges.flatMap (fun range => (List.range (range.2 - range.1 + 1)).map (range.1 + ·)) ++
    [0x5E, 0x5C, 0x2E, 0x2C, 0x3B, 0x3A, 0x3F, 0x21]

theorem mem_reserved {c : Char} (h : isReserved c = true) : c.toNat ∈ reserved := by
  unfold reserved
  simp only [isReserved, isGap, isPunctuation, Bool.or_eq_true, decide_eq_true_eq] at h
  rcases h with ((hblank | rfl) | rfl) | hpunctuation
  · obtain ⟨range, hmem, hlow, hhigh⟩ := RangeTable.exists_mem_of_contains hblank
    refine List.mem_append_left _ (List.mem_flatMap.2 ⟨range, hmem, ?_⟩)
    refine List.mem_map.2 ⟨c.toNat - range.1, ?_, by omega⟩
    rw [List.mem_range]
    omega
  · exact List.mem_append_right _ (by decide)
  · exact List.mem_append_right _ (by decide)
  · rcases hpunctuation with ((((rfl | rfl) | rfl) | rfl) | rfl) | rfl <;>
      exact List.mem_append_right _ (by decide)

/-- No reserved character is moved, and none is part of an image. -/
theorem bitMask_reserved :
    bitMask reserved &&& bitMask (caseSources upperExpansions upperRuns ++
      (caseImages upperExpansions upperRuns).flatten) = 0 := by
  decide +kernel

/-- No image begins with a character that is moved. -/
theorem bitMask_heads :
    bitMask ((caseImages upperExpansions upperRuns).map fun image => image.headD 0) &&&
      bitMask (caseSources upperExpansions upperRuns) = 0 := by
  decide +kernel

theorem valid_images :
    (caseImages upperExpansions upperRuns).all
      (fun image => !image.isEmpty && image.all fun n => decide n.isValidChar) = true := by
  decide +kernel

/-- A character is left alone, or neither it nor its capital is reserved, and the capital begins
with a character that is left alone. -/
theorem upperChar_cases (c : Char) :
    upperChar c = [c] ∨
      isReserved c = false ∧ ∃ d ds, upperChar c = d :: ds ∧ upperChar d = [d] ∧
        ∀ e ∈ d :: ds, isReserved e = false := by
  rcases mapCase_cases upperExpansions upperRuns c with hself | ⟨hsource, image, himage, heq⟩
  · exact Or.inl hself
  · have hvalid := List.all_eq_true.1 valid_images image himage
    rw [Bool.and_eq_true, Bool.not_eq_true', List.all_eq_true] at hvalid
    have hfree : ∀ n ∈ image, isReserved (Char.ofNat n) = false := by
      intro n hn
      rw [← Bool.not_eq_true]
      intro hreserved
      apply not_mem_of_bitMask bitMask_reserved (mem_reserved hreserved)
      rw [toNat_ofNat (of_decide_eq_true (hvalid.2 n hn))]
      exact List.mem_append_right _ (List.mem_flatten.2 ⟨image, himage, hn⟩)
    cases image with
    | nil => cases hvalid.1
    | cons n ns =>
      refine Or.inr ⟨?_, Char.ofNat n, ns.map Char.ofNat, heq, ?_, ?_⟩
      · rw [← Bool.not_eq_true]
        intro hreserved
        exact not_mem_of_bitMask bitMask_reserved (mem_reserved hreserved)
          (List.mem_append_left _ hsource)
      · apply mapCase_of_not_mem
        rw [toNat_ofNat (of_decide_eq_true (hvalid.2 n List.mem_cons_self))]
        exact not_mem_of_bitMask bitMask_heads (List.mem_map.2 ⟨n :: ns, himage, rfl⟩)
      · intro e he
        obtain ⟨m, hm, rfl⟩ := List.mem_map.1 (show e ∈ (n :: ns).map Char.ofNat from he)
        exact hfree m hm

theorem upperChar_of_isReserved {c : Char} (h : isReserved c = true) : upperChar c = [c] := by
  rcases upperChar_cases c with hself | ⟨hfree, -⟩
  · exact hself
  · rw [h] at hfree
    cases hfree

end Normal

end TextGrammar
