-- SUMMARY: Embedding a template is one pass from left to right over its runs of quotes.
import Mathlib.Data.Nat.Init
import TypedTemplate.Proofs.Template.Part

/-!
# Runs of quotes

A template is embedded by replacements one after the other: line breaks go, every
quote gets a backslash, and two escaped quotes become a bare one. Together they come
to a single pass over the text. It counts the quotes that stand together once the
line breaks are gone, and where a run ends it writes a bare quote for every two and
an escaped one for the last of an odd number. Backslashes of the template are no
part of this: one before a quote never takes part in a replacement.
-/

namespace TypedTemplate.Embed

/-- Replace each occurrence of `pattern` by `new`, from left to right. -/
def replaceAll (pattern new : List Char) : List Char → List Char
  | []      => []
  | c :: cs =>
    if pattern.isPrefixOf (c :: cs) then new ++ replaceAll pattern new (cs.drop (pattern.length - 1))
    else c :: replaceAll pattern new cs
termination_by cs => cs.length
decreasing_by
  · exact Nat.lt_succ_of_le (List.drop_sublist _ _).length_le
  · exact Nat.lt_succ_self _

/-- What becomes of `n` quotes in a row. -/
def ofRun (n : Nat) : List Char :=
  List.replicate (n / 2) '"' ++ if n % 2 = 1 then ['\\', '"'] else []

/-- Each run of quotes, as long as it is, by what becomes of it. -/
def replaceRuns : List Char → List Char
  | []      => []
  | c :: cs =>
    if c = '"' then
      ofRun (1 + (cs.takeWhile (· == '"')).length) ++ replaceRuns (cs.dropWhile (· == '"'))
    else c :: replaceRuns cs
termination_by cs => cs.length
decreasing_by
  · exact Nat.lt_succ_of_le (List.dropWhile_sublist _).length_le
  · exact Nat.lt_succ_self _

/-- The pass over the text when the last `n` characters were quotes. -/
def passFrom (n : Nat) : List Char → List Char
  | []      => ofRun n
  | c :: cs =>
    if isLineBreak c then passFrom n cs
    else if c = '"' then passFrom (n + 1) cs
    else ofRun n ++ c :: passFrom 0 cs

/-! ## Replacements -/

/-- One step of a replacement. -/
theorem replaceAll_eq (pattern new cs : List Char) :
    replaceAll pattern new cs =
      match cs with
      | []      => []
      | c :: cs =>
        if pattern.isPrefixOf (c :: cs) then
          new ++ replaceAll pattern new (cs.drop (pattern.length - 1))
        else c :: replaceAll pattern new cs := by
  rw [replaceAll.eq_def]

theorem replaceAll_nil (pattern new : List Char) : replaceAll pattern new [] = [] :=
  replaceAll_eq pattern new []

theorem replaceAll_prefix {pattern : List Char} (h : pattern ≠ []) (new cs : List Char) :
    replaceAll pattern new (pattern ++ cs) = new ++ replaceAll pattern new cs := by
  obtain ⟨p, ps, rfl⟩ := List.exists_cons_of_ne_nil h
  rw [List.cons_append, replaceAll_eq]
  simp

theorem replaceAll_cons {pattern new cs : List Char} {c : Char}
    (h : pattern.isPrefixOf (c :: cs) = false) :
    replaceAll pattern new (c :: cs) = c :: replaceAll pattern new cs := by
  rw [replaceAll_eq]
  simp [h]

/-- A pattern of one character is replaced wherever the character is. -/
theorem replaceAll_singleton (p : Char) (new cs : List Char) :
    replaceAll [p] new cs = cs.flatMap fun c => if c = p then new else [c] := by
  induction cs with
  | nil => exact replaceAll_nil _ _
  | cons c cs ih =>
    by_cases hc : c = p
    · subst hc
      simpa [ih] using replaceAll_prefix (List.cons_ne_nil c []) new cs
    · have hp : List.isPrefixOf [p] (c :: cs) = false := by
        simp [List.isPrefixOf, Ne.symm hc]
      rw [replaceAll_cons hp, ih]
      simp [hc]

/-- Two characters in a row are only taken out where the first of them is taken out as well. -/
theorem filter_replaceAll_pair {p : Char → Bool} {a b : Char} (cs : List Char)
    (ha : p a = false) (hb : p b = false) :
    (replaceAll [a, b] [] cs).filter p = cs.filter p := by
  induction h : cs.length using Nat.strongRecOn generalizing cs with
  | ind n ih =>
    subst h
    match cs with
    | [] => rw [replaceAll_nil]
    | c :: cs =>
      cases hp : List.isPrefixOf [a, b] (c :: cs) with
      | false =>
        rw [replaceAll_cons hp, List.filter_cons, List.filter_cons, ih _ (by simp) cs rfl]
      | true =>
        obtain ⟨rest, heq⟩ := List.isPrefixOf_iff_prefix.mp hp
        have hlt : rest.length < (c :: cs).length := by
          rw [← heq, List.length_append]
          exact Nat.lt_add_of_pos_left (Nat.succ_pos _)
        rw [← heq, replaceAll_prefix (by simp), List.nil_append, ih _ hlt rest rfl]
        simp [ha, hb]

theorem bareQuotesOnto_eq (out cs : List Char) :
    bareQuotesOnto out cs = out.reverse ++ replaceAll ['\\', '"', '\\', '"'] ['"'] cs := by
  fun_induction bareQuotesOnto out cs with
  | case1 out rest ih =>
    have h := replaceAll_prefix (List.cons_ne_nil '\\' ['"', '\\', '"']) ['"'] rest
    simp_all
  | case2 out c rest hne ih =>
    rw [replaceAll_cons, ih]
    · simp
    · refine Bool.eq_false_iff.mpr fun hp => ?_
      obtain ⟨rest', heq⟩ := List.isPrefixOf_iff_prefix.mp hp
      obtain ⟨rfl, rfl⟩ := List.cons.inj heq
      exact hne rest' rfl rfl
  | case3 out => simp [replaceAll_nil]

/-- Embedding is four replacements, one after the other. -/
theorem embedChars_eq_replaceAll (cs : List Char) :
    embedChars cs =
      replaceAll ['\\', '"', '\\', '"'] ['"'] (replaceAll ['"'] ['\\', '"']
        ((replaceAll ['\r', '\n'] [] cs).filter (!isLineBreak ·))) := by
  rw [filter_replaceAll_pair cs (by decide) (by decide), replaceAll_singleton, embedChars,
    bareQuotesOnto_eq, escapeQuotes]
  simp

/-! ## Lines -/

theorem mem_bareQuotesOnto {out cs : List Char} {c : Char} (h : c ∈ bareQuotesOnto out cs) :
    c ∈ out ∨ c ∈ cs := by
  fun_induction bareQuotesOnto out cs with
  | case1 out rest ih | case2 out d rest hquotes ih =>
    rcases ih h with hout | hrest
    · rcases List.mem_cons.1 hout with rfl | hout
      · exact .inr (by simp)
      · exact .inl hout
    · exact .inr (by simp [hrest])
  | case3 out => exact .inl (List.mem_reverse.1 h)

/-- The text stands on one line. -/
theorem not_mem_embed (template : String) : '\n' ∉ (embed template).toList := by
  intro h
  rw [embed, String.toList_ofList, embedChars] at h
  have hescape := (mem_bareQuotesOnto h).resolve_left (by simp)
  obtain ⟨c, hc, hmem⟩ := List.mem_flatMap.1 hescape
  have hline : '\n' = c := by
    by_cases hquote : c = '"'
    · subst hquote
      exact absurd hmem (by decide)
    · simpa [hquote] using hmem
  subst hline
  exact absurd (List.mem_filter.1 hc).2 (by decide)

/-! ## Runs -/

/-- Only an escaped quote behind it lets a backslash take part in a replacement. -/
theorem bareQuotesOnto_keep {out cs : List Char} {c : Char}
    (h : ¬ ['"', '\\', '"'] <+: cs ∨ c ≠ '\\') :
    bareQuotesOnto out (c :: cs) = bareQuotesOnto (c :: out) cs := by
  rw [bareQuotesOnto.eq_def]
  split
  · rename_i rest heq
    obtain ⟨rfl, rfl⟩ := List.cons.inj heq
    simp at h
  · rename_i heq
    obtain ⟨rfl, rfl⟩ := List.cons.inj heq
    rfl
  · rename_i heq
    cases heq

theorem escapeQuotes_cons {c : Char} (cs : List Char) (hc : c ≠ '"') :
    escapeQuotes (c :: cs) = c :: escapeQuotes cs := by
  simp [escapeQuotes, hc]

theorem escapeQuotes_quotes (n : Nat) (cs : List Char) :
    escapeQuotes (List.replicate (n + 1) '"' ++ cs) =
      '\\' :: '"' :: escapeQuotes (List.replicate n '"' ++ cs) := by
  simp [escapeQuotes, List.replicate_succ]

/-- A text with its quotes escaped does not start with a quote. -/
theorem not_prefix_escapeQuotes (cs tail : List Char) : ¬ '"' :: tail <+: escapeQuotes cs := by
  rintro ⟨rest, h⟩
  match cs with
  | []      => simp [escapeQuotes] at h
  | c :: cs =>
    by_cases hc : c = '"'
    · subst hc
      simp [escapeQuotes] at h
    · rw [escapeQuotes_cons cs hc] at h
      exact hc (List.cons.inj h).1.symm

/-- A character other than a quote is kept, a backslash before escaped quotes included. -/
theorem bareQuotesOnto_other {out : List Char} {c : Char} (cs : List Char) (hc : c ≠ '"') :
    bareQuotesOnto out (escapeQuotes (c :: cs)) = bareQuotesOnto (c :: out) (escapeQuotes cs) := by
  rw [escapeQuotes_cons cs hc]
  exact bareQuotesOnto_keep (.inl (not_prefix_escapeQuotes cs _))

/-- A run of escaped quotes that another character or the end of the text follows. -/
theorem bareQuotesOnto_run {out cs : List Char} (n : Nat) (h : cs.head? ≠ some '"') :
    bareQuotesOnto out (escapeQuotes (List.replicate n '"' ++ cs)) =
      bareQuotesOnto ((ofRun n).reverse ++ out) (escapeQuotes cs) := by
  induction n using Nat.twoStepInduction generalizing out with
  | zero => rfl
  | one =>
    have hnext : ¬ ['"', '\\', '"'] <+: '"' :: escapeQuotes cs := by
      rintro ⟨rest, heq⟩
      match cs with
      | []      => simp [escapeQuotes] at heq
      | c :: cs =>
        rw [escapeQuotes_cons cs (by simpa using h)] at heq
        simp only [List.cons_append, List.nil_append, List.cons.injEq, true_and] at heq
        exact not_prefix_escapeQuotes cs [] ⟨rest, heq.2⟩
    rw [escapeQuotes_quotes, List.replicate_zero, List.nil_append, bareQuotesOnto_keep (.inl hnext),
      bareQuotesOnto_keep (.inr (by decide))]
    rfl
  | more n ih _ =>
    have hrun : ofRun (n + 2) = '"' :: ofRun n := by
      simp [ofRun, List.replicate_succ]
    rw [escapeQuotes_quotes, escapeQuotes_quotes, bareQuotesOnto, ih, hrun]
    simp

/-- What is replaced in a text that starts with `n` quotes is what the pass writes. -/
theorem bareQuotesOnto_eq_passFrom (out cs : List Char) (n : Nat)
    (h : ∀ c ∈ cs, isLineBreak c = false) :
    bareQuotesOnto out (escapeQuotes (List.replicate n '"' ++ cs)) = out.reverse ++ passFrom n cs := by
  induction cs generalizing out n with
  | nil =>
    rw [bareQuotesOnto_run n (by simp), passFrom]
    simp [escapeQuotes, bareQuotesOnto]
  | cons c cs ih =>
    have hcs : ∀ d ∈ cs, isLineBreak d = false := fun d hd => h d (List.mem_cons_of_mem _ hd)
    rw [passFrom, if_neg (by simp [h c List.mem_cons_self])]
    split
    case isTrue hc =>
      subst hc
      rw [← ih out (n + 1) hcs, List.replicate_succ', List.append_assoc]
      rfl
    case isFalse hc =>
      have hnext := ih (c :: ((ofRun n).reverse ++ out)) 0 hcs
      rw [bareQuotesOnto_run n (by simpa using hc), bareQuotesOnto_other cs hc]
      simpa using hnext

/-- The pass skips line breaks, in a run of quotes too. -/
theorem passFrom_filter (n : Nat) (cs : List Char) :
    passFrom n (cs.filter (!isLineBreak ·)) = passFrom n cs := by
  fun_induction passFrom n cs with
  | case1 n => rfl
  | case2 n c cs hb ih => simpa [hb] using ih
  | case3 n cs hb ih => simpa [passFrom, isLineBreak] using ih
  | case4 n c cs hb hc ih => simp [passFrom, hb, hc, ih]

theorem replaceRuns_replicate {cs : List Char} (n : Nat) (h : cs.head? ≠ some '"') :
    replaceRuns (List.replicate n '"' ++ cs) = ofRun n ++ replaceRuns cs := by
  match n with
  | 0     => rfl
  | n + 1 =>
    have htake : cs.takeWhile (· == '"') = [] := by
      cases cs <;> simp_all
    have hdrop : cs.dropWhile (· == '"') = cs := by
      cases cs <;> simp_all
    rw [List.replicate_succ, List.cons_append, replaceRuns, if_pos rfl]
    simp [htake, hdrop, Nat.add_comm]

/-- In a text without line breaks the pass replaces runs. -/
theorem passFrom_eq_replaceRuns (n : Nat) (cs : List Char) (h : ∀ c ∈ cs, isLineBreak c = false) :
    passFrom n cs = replaceRuns (List.replicate n '"' ++ cs) := by
  induction cs generalizing n with
  | nil =>
    rw [replaceRuns_replicate n (by simp), passFrom, replaceRuns, List.append_nil]
  | cons c cs ih =>
    have hcs : ∀ d ∈ cs, isLineBreak d = false := fun d hd => h d (List.mem_cons_of_mem _ hd)
    rw [passFrom, if_neg (by simp [h c List.mem_cons_self])]
    split
    case isTrue hc =>
      subst hc
      rw [ih (n + 1) hcs, List.replicate_succ', List.append_assoc]
      rfl
    case isFalse hc =>
      rw [replaceRuns_replicate n (by simpa using hc), replaceRuns, if_neg hc, ih 0 hcs]
      rfl

/-- Embedding deletes the line breaks and replaces each run of quotes that is left: `n` of them by
half as many bare ones, and an escaped one for the last of an odd number. This is one pass over the
text. -/
theorem toList_embed (text : String) :
    (embed text).toList = replaceRuns (text.toList.filter (!isLineBreak ·)) ∧
      (embed text).toList = passFrom 0 text.toList := by
  have hbreaks : ∀ c ∈ text.toList.filter (!isLineBreak ·), isLineBreak c = false := by
    simp
  have hpass : (embed text).toList = passFrom 0 (text.toList.filter (!isLineBreak ·)) := by
    rw [embed, String.toList_ofList]
    exact bareQuotesOnto_eq_passFrom [] _ 0 hbreaks
  exact ⟨hpass.trans (passFrom_eq_replaceRuns 0 _ hbreaks), hpass.trans (passFrom_filter 0 _)⟩

/-- Line breaks between quotes do not end a run, and the backslash of the template stays bare. -/
example : embed "\\\"\r\n\"\n\" a" = "\\\"\\\" a" := by decide

end TypedTemplate.Embed
