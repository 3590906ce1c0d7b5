import InfiniteEvm.Erc20.TokenPairs
import Mathlib

/-!
# Sanitized names

Each pass of `SanitizeERC20Name` looks at the first character once, and cutting a prefix off
exposes the next one. A name is therefore settled exactly if it starts with a letter.
-/

namespace InfiniteEvm.Erc20

open List

/-- The characters that `removeSpecialChars` keeps. -/
def nameChar (c : Char) : Bool := c.isAlphanum || ['/', ':', '-'].contains c

def invalidPrefixes : List String := ["ibc/", "erc20/", "erc20:"]

variable {name : List Char} {b : Bool}

theorem removeLeadingNumbers_sublist : (removeLeadingNumbers b name).Sublist name := by
  fun_induction removeLeadingNumbers b name with
  | case1 => exact .slnil
  | case2 lineStart c rest _ ih => exact ih.cons c
  | case3 lineStart c rest _ ih => exact ih.cons_cons c

theorem removeSpecialChars_sublist : (removeSpecialChars name).Sublist name := by
  cases name with
  | nil => exact .slnil
  | cons first rest =>
    rw [removeSpecialChars]
    split
    · exact filter_sublist.cons_cons first
    · exact filter_sublist.cons first

theorem nameChar_of_mem_removeSpecialChars : ∀ c ∈ removeSpecialChars name, nameChar c := by
  cases name with
  | nil => nofun
  | cons first rest =>
    intro c hc
    rcases mem_append.mp hc with hc | hc
    · split at hc
      · rename_i halpha
        rw [mem_singleton.mp hc]
        simp [nameChar, Char.isAlphanum, halpha]
      · cases hc
    · exact (mem_filter.mp hc).2

theorem removeInvalidPrefixes_suffix : removeInvalidPrefixes name <:+ name := by
  fun_induction removeInvalidPrefixes name with
  | case1 rest ih => exact ih.trans ⟨[_, _, _, _], rfl⟩
  | case2 rest ih | case3 rest ih => exact ih.trans ⟨[_, _, _, _, _, _], rfl⟩
  | case4 name => exact suffix_rfl

theorem removeInvalidPrefixes_free :
    ∀ p ∈ invalidPrefixes, ¬p.toList <+: removeInvalidPrefixes name := by
  fun_induction removeInvalidPrefixes name with
  | case1 rest ih | case2 rest ih | case3 rest ih => exact ih
  | case4 name h₁ h₂ h₃ =>
    simp only [invalidPrefixes, mem_cons, not_mem_nil, or_false, forall_eq_or_imp, forall_eq]
    exact ⟨fun ⟨t, ht⟩ => h₁ t ht.symm, fun ⟨t, ht⟩ => h₂ t ht.symm, fun ⟨t, ht⟩ => h₃ t ht.symm⟩

theorem removeInvalidPrefixes_of_free (h : ∀ p ∈ invalidPrefixes, ¬p.toList <+: name) :
    removeInvalidPrefixes name = name := by
  fun_cases removeInvalidPrefixes name with
  | case1 rest => exact absurd (prefix_append _ rest) (h "ibc/" (by decide))
  | case2 rest => exact absurd (prefix_append _ rest) (h "erc20/" (by decide))
  | case3 rest => exact absurd (prefix_append _ rest) (h "erc20:" (by decide))
  | case4 name => rfl

theorem removeLeadingNumbers_of_nameChar (h : ∀ c ∈ name, nameChar c) :
    removeLeadingNumbers false name = name := by
  induction name with
  | nil => rfl
  | cons c rest ih =>
    have hc : c ≠ '\n' := by
      rintro rfl
      exact absurd (h '\n' mem_cons_self) (by decide)
    simp only [removeLeadingNumbers, hc, Bool.false_and, Bool.false_eq_true, if_false, decide_false]
    rw [ih fun c hc => h c (mem_cons_of_mem _ hc)]

/-- The passes before the last one leave a name of allowed characters as it is exactly if it is
empty or starts with a letter. -/
theorem cleaned_eq_self_iff (h : ∀ c ∈ name, nameChar c) :
    removeSpecialChars (removeLeadingNumbers true name) = name ↔ ∀ c ∈ name.head?, c.isAlpha := by
  cases name with
  | nil => exact ⟨nofun, fun _ => rfl⟩
  | cons first rest =>
    have hrest : ∀ c ∈ rest, nameChar c := fun c hc => h c (mem_cons_of_mem first hc)
    simp only [head?_cons, Option.mem_some_iff, forall_eq']
    constructor
    · intro heq
      by_contra halpha
      -- the first character is dropped, by the first pass if it is a digit
      have hsub :
          (removeSpecialChars (removeLeadingNumbers true (first :: rest))).Sublist rest := by
        rw [removeLeadingNumbers]
        split
        · exact removeSpecialChars_sublist.trans removeLeadingNumbers_sublist
        · rw [removeSpecialChars, if_neg halpha]
          exact filter_sublist.trans removeLeadingNumbers_sublist
      have hlength := (heq ▸ hsub).length_le
      simp at hlength
    · intro halpha
      have hdigit : first.isDigit = false := by
        grind [Char.isAlpha, Char.isUpper, Char.isLower, Char.isDigit]
      have hline : first ≠ '\n' := by
        rintro rfl
        exact absurd halpha (by decide)
      rw [removeLeadingNumbers, hdigit, decide_eq_false hline,
        removeLeadingNumbers_of_nameChar hrest]
      simpa [removeSpecialChars, halpha, nameChar] using hrest

/-- A sanitized name has only allowed characters, at most 128 of them, and no prefix that is not
allowed. It is empty or starts with a letter exactly if sanitizing it again does not change it. -/
theorem sanitizeERC20Name_safe (name : String) :
    (∀ c ∈ (sanitizeERC20Name name).toList, c.isAlphanum ∨ c ∈ ['/', ':', '-']) ∧
      (sanitizeERC20Name name).length ≤ 128 ∧
      (∀ p ∈ ["ibc/", "erc20/", "erc20:"], ¬p.toList <+: (sanitizeERC20Name name).toList) ∧
      ((∀ c ∈ (sanitizeERC20Name name).toList.head?, c.isAlpha) ↔
        sanitizeERC20Name (sanitizeERC20Name name) = sanitizeERC20Name name) := by
  generalize hr : removeInvalidPrefixes
    ((removeSpecialChars (removeLeadingNumbers true name.toList)).take 128) = r
  have hname : sanitizeERC20Name name = .ofList r := congrArg String.ofList hr
  have hsuffix := hr ▸ removeInvalidPrefixes_suffix
  have hlength : r.length ≤ 128 := hsuffix.length_le.trans (length_take_le 128 _)
  have hchar : ∀ c ∈ r, nameChar c := fun c hc =>
    nameChar_of_mem_removeSpecialChars c (mem_of_mem_take (hsuffix.subset hc))
  have hfree : ∀ p ∈ invalidPrefixes, ¬p.toList <+: r := hr ▸ removeInvalidPrefixes_free
  rw [hname, String.toList_ofList]
  refine ⟨fun c hc => by simpa [nameChar] using hchar c hc, by simpa using hlength, hfree, ?_⟩
  rw [← cleaned_eq_self_iff hchar, sanitizeERC20Name, String.toList_ofList, String.ofList_inj]
  constructor
  · intro heq
    rw [heq, take_of_length_le hlength, removeInvalidPrefixes_of_free hfree]
  · intro heq
    have hsub := removeSpecialChars_sublist.trans (@removeLeadingNumbers_sublist r true)
    apply hsub.eq_of_length_le
    calc r.length ≤ _ := (heq ▸ removeInvalidPrefixes_suffix).length_le
      _ ≤ _ := length_take_le' 128 _

/-- A second special character at the start is kept. -/
theorem sanitizeERC20Name_slash : sanitizeERC20Name "//abc" = "/abc" ∧
    sanitizeERC20Name "/abc" = "abc" := by
  decide

end InfiniteEvm.Erc20
