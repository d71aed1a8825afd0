-- SUMMARY: The spellings of host types that are types of the unit language.
import TypedTemplate.Proofs.Template.TypeText

/-!
# Spellings that are types

The scan of a host name balances its brackets and looks for a name behind each separator, but it
knows no keywords, and behind a bracket that closes it lets anything go on. What it accepts is the
text of a type when no word is a keyword and only a comma or another bracket that closes comes
behind one. No other text is that of a type.
-/

namespace TypedTemplate

namespace Spelling

/-- The words of a text, empty ones between its other characters included. -/
def words (cs : List Char) : List (List Char) := cs.splitOnP (!isWordChar ·)

/-- Behind a bracket that closes there is another one, a comma or nothing. -/
def closesLast : List Char → Bool
  | []      => true
  | c :: cs => (c != '>' || cs.head?.all fun d => d == '>' || d == ',') && closesLast cs

/-- No word is a keyword, and nothing goes on directly behind type arguments. -/
structure Clear (cs : List Char) : Prop where
  words : ∀ w ∈ words cs, TokenKind.ofWord w = .identifier
  brackets : closesLast cs = true

instance (cs : List Char) : Decidable (Clear cs) :=
  decidable_of_iff ((∀ w ∈ words cs, TokenKind.ofWord w = .identifier) ∧ closesLast cs = true)
    ⟨fun h => ⟨h.1, h.2⟩, fun h => ⟨h.words, h.brackets⟩⟩

variable {c : Char} {w cs rest : List Char} {depth : Nat}

theorem clear_nil : Clear [] := by decide

theorem closesLast_append (hw : '>' ∉ w) : closesLast (w ++ rest) = closesLast rest := by
  induction w with
  | nil => rfl
  | cons c w ih =>
    have hc : (c != '>') = true := by
      rw [bne_iff_ne]
      exact fun hc => hw (hc ▸ List.mem_cons_self)
    rw [List.cons_append, closesLast, ih fun h => hw (List.mem_cons_of_mem c h), hc]
    rfl

theorem words_cons (hc : isWordChar c = false) : words (c :: cs) = [] :: words cs := by
  rw [words, List.splitOnP_cons_eq_if_modifyHead, if_pos (by simp [hc])]
  rfl

theorem words_append (hw : ∀ c ∈ w, isWordChar c = true) (hc : isWordChar c = false) :
    words (w ++ c :: cs) = w :: words cs :=
  List.splitOnP_append_cons_of_forall_mem (fun x hx => by simp [hw x hx]) c (by simp [hc]) cs

/-- A separator that closes no bracket. -/
theorem clear_cons (hc : isWordChar c = false) (hclose : c ≠ '>') : Clear (c :: cs) ↔ Clear cs := by
  have hbrackets : closesLast (c :: cs) = closesLast cs :=
    closesLast_append (w := [c]) (by simpa using hclose.symm)
  have hwords : words (c :: cs) = [] :: words cs := words_cons hc
  constructor
  · rintro ⟨h, h'⟩
    exact ⟨fun w hw => h w (hwords ▸ List.mem_cons_of_mem _ hw), hbrackets ▸ h'⟩
  · rintro ⟨h, h'⟩
    refine ⟨?_, hbrackets ▸ h'⟩
    rw [hwords]
    exact List.forall_mem_cons.2 ⟨rfl, h⟩

theorem clear_greater :
    Clear ('>' :: cs) ↔ (∀ d ∈ cs.head?, d = '>' ∨ d = ',') ∧ Clear cs := by
  have hbrackets : closesLast ('>' :: cs) = true ↔
      (∀ d ∈ cs.head?, d = '>' ∨ d = ',') ∧ closesLast cs = true := by
    cases cs <;> simp [closesLast]
  have hwords : words ('>' :: cs) = [] :: words cs := words_cons rfl
  constructor
  · rintro ⟨h, h'⟩
    obtain ⟨hhead, h'⟩ := hbrackets.1 h'
    exact ⟨hhead, fun w hw => h w (hwords ▸ List.mem_cons_of_mem _ hw), h'⟩
  · rintro ⟨hhead, h, h'⟩
    refine ⟨?_, hbrackets.2 ⟨hhead, h'⟩⟩
    rw [hwords]
    exact List.forall_mem_cons.2 ⟨rfl, h⟩

/-- A word, where it ends. -/
theorem clear_append (hw : ∀ c ∈ w, isWordChar c = true)
    (hrest : ∀ c ∈ rest.head?, isWordChar c = false) :
    Clear (w ++ rest) ↔ TokenKind.ofWord w = .identifier ∧ Clear rest := by
  have hbrackets : closesLast (w ++ rest) = closesLast rest :=
    closesLast_append fun h => absurd (hw '>' h) (by decide)
  have hwords : (∀ v ∈ words (w ++ rest), TokenKind.ofWord v = .identifier) ↔
      TokenKind.ofWord w = .identifier ∧ ∀ v ∈ words rest, TokenKind.ofWord v = .identifier := by
    cases rest with
    | nil =>
      have hsingle : words (w ++ []) = [w] := by
        rw [List.append_nil]
        exact List.splitOnP_eq_singleton fun x hx => by simp [hw x hx]
      have hnone : words [] = [[]] := rfl
      have hnil : TokenKind.ofWord [] = .identifier := rfl
      rw [hsingle, hnone]
      simp [hnil]
    | cons d cs =>
      have hd : isWordChar d = false := hrest d rfl
      have hnil : TokenKind.ofWord [] = .identifier := rfl
      rw [words_append hw hd, words_cons hd]
      simp [hnil]
  constructor
  · rintro ⟨h, h'⟩
    exact ⟨(hwords.1 h).1, (hwords.1 h).2, hbrackets ▸ h'⟩
  · rintro ⟨hw, h, h'⟩
    exact ⟨hwords.2 ⟨hw, h⟩, hbrackets ▸ h'⟩

/-! ## From spellings to types -/

/-- What is left of an accepted spelling at some depth of brackets. -/
structure Reads (depth : Nat) (fresh : Bool) (cs : List Char) : Prop where
  chars : ∀ c ∈ cs, isNameChar c = true
  path : isPathFrom depth fresh cs = true
  clear : Clear cs

namespace Reads

variable {fresh : Bool}

theorem nil (h : Reads depth fresh []) : depth = 0 := by
  have hpath := h.path
  simp only [isPathFrom, Bool.and_eq_true, beq_iff_eq] at hpath
  exact hpath.1

theorem colon (h : Reads depth fresh (':' :: cs)) : ∃ cs', cs = ':' :: cs' ∧ Reads depth true cs' := by
  obtain ⟨hchars, hpath, hclear⟩ := h
  cases cs with
  | nil => simp [isPathFrom] at hpath
  | cons d cs =>
    by_cases hd : d = ':'
    · subst hd
      simp only [isPathFrom, Bool.and_eq_true] at hpath
      have hclear' := (clear_cons rfl (by decide)).1 ((clear_cons rfl (by decide)).1 hclear)
      exact ⟨cs, rfl, fun c hc => hchars c (by simp [hc]), hpath.2, hclear'⟩
    · rw [isPathFrom_colon hd] at hpath
      cases hpath

theorem less (h : Reads depth fresh ('<' :: cs)) : Reads (depth + 1) true cs := by
  have hpath := h.path
  simp only [isPathFrom, Bool.and_eq_true] at hpath
  exact ⟨fun c hc => h.chars c (List.mem_cons_of_mem _ hc), hpath.2,
    (clear_cons rfl (by decide)).1 h.clear⟩

theorem comma (h : Reads depth fresh (',' :: cs)) : depth ≠ 0 ∧ Reads depth true cs := by
  have hpath := h.path
  simp only [isPathFrom, Bool.and_eq_true, bne_iff_ne] at hpath
  exact ⟨hpath.1.1, fun c hc => h.chars c (List.mem_cons_of_mem _ hc), hpath.2,
    (clear_cons rfl (by decide)).1 h.clear⟩

theorem greater (h : Reads depth fresh ('>' :: cs)) :
    depth ≠ 0 ∧ Reads (depth - 1) false cs ∧ ∀ d ∈ cs.head?, d = '>' ∨ d = ',' := by
  have hpath := h.path
  simp only [isPathFrom, Bool.and_eq_true, bne_iff_ne] at hpath
  obtain ⟨hhead, hclear⟩ := clear_greater.1 h.clear
  exact ⟨hpath.1.1, ⟨fun c hc => h.chars c (List.mem_cons_of_mem _ hc), hpath.2, hclear⟩, hhead⟩

/-- Where a name has to start, a letter or an underscore does. -/
theorem exists_start (h : Reads depth true cs) : ∃ c cs', cs = c :: cs' ∧ isWordStart c = true := by
  obtain ⟨hchars, hpath, -⟩ := h
  cases cs with
  | nil => simp [isPathFrom] at hpath
  | cons c cs =>
    refine ⟨c, cs, rfl, ?_⟩
    have hdigit : isWordChar c = true → c.isDigit = false := by
      intro hword
      rw [isPathFrom.eq_def] at hpath
      split at hpath <;> simp_all [isWordChar]
    rcases isNameChar_cases (hchars c List.mem_cons_self) with hword | rfl | rfl | rfl | rfl
    · have hdigit := hdigit hword
      simp only [isWordChar, isWordStart, Char.isAlphanum, Bool.or_eq_true] at hword ⊢
      grind
    · cases cs with
      | nil => simp [isPathFrom] at hpath
      | cons d cs =>
        by_cases hd : d = ':'
        · simp [hd, isPathFrom] at hpath
        · simp [isPathFrom_colon hd] at hpath
    · simp [isPathFrom] at hpath
    · simp [isPathFrom] at hpath
    · simp [isPathFrom] at hpath

/-- Where a name has to start, there is an identifier. -/
theorem identifier (h : Reads depth true cs) :
    ∃ x rest, IsIdentifier x ∧ cs = x.toList ++ rest ∧ Reads depth false rest ∧
      ∀ c ∈ rest.head?, isWordChar c = false := by
  obtain ⟨c, cs, rfl, hstart⟩ := h.exists_start
  obtain ⟨hchars, hpath, hclear⟩ := h
  have hword := isWordChar_of_isWordStart hstart
  have hsplit : c :: cs = (c :: cs.takeWhile isWordChar) ++ cs.dropWhile isWordChar := by
    rw [List.cons_append, List.takeWhile_append_dropWhile]
  have hrest := head_dropWhile isWordChar cs
  have hall : ∀ d ∈ c :: cs.takeWhile isWordChar, isWordChar d = true := by
    refine List.forall_mem_cons.2 ⟨hword, ?_⟩
    exact fun d hd => List.all_eq_true.1 List.all_takeWhile d hd
  rw [hsplit] at hclear
  obtain ⟨hkind, hclear⟩ := (clear_append hall hrest).1 hclear
  refine ⟨.ofList (c :: cs.takeWhile isWordChar), cs.dropWhile isWordChar, ?_, ?_, ?_, hrest⟩
  · rw [IsIdentifier, String.toList_ofList]
    exact ⟨⟨c, rfl, hstart⟩, hall, hkind⟩
  · rw [String.toList_ofList]
    exact hsplit
  · refine ⟨fun d hd => hchars d ?_, isPathFrom_dropWhile ?_, hclear⟩
    · exact List.mem_cons_of_mem c ((List.dropWhile_suffix isWordChar).subset hd)
    · exact TypedTemplate.isPathFrom_word hword hpath

theorem head_cases {fresh : Bool} (h : Reads depth fresh rest)
    (hword : ∀ c ∈ rest.head?, isWordChar c = false) :
    ∀ c ∈ rest.head?, c = ':' ∨ c = '<' ∨ c = '>' ∨ c = ',' := by
  intro c hc
  have hname := h.chars c (List.mem_of_mem_head? hc)
  rcases isNameChar_cases hname with hchar | hmark
  · rw [hword c hc] at hchar
    cases hchar
  · exact hmark

/-- Where a name has to start, there is a path of identifiers. -/
theorem exists_path {depth : Nat} {cs : List Char} (h : Reads depth true cs) :
    ∃ x xs rest, AreIdentifiers (x :: xs) ∧ cs = ("::".intercalate (x :: xs)).toList ++ rest ∧
      Reads depth false rest ∧ ∀ c ∈ rest.head?, c = '<' ∨ c = '>' ∨ c = ',' := by
  obtain ⟨x, rest, hx, rfl, hrest, hword⟩ := h.identifier
  have hsingle : x.toList = ("::".intercalate [x]).toList := by rw [String.intercalate_singleton]
  have hxs : AreIdentifiers [x] := by simpa [AreIdentifiers] using hx
  cases rest with
  | nil => exact ⟨x, [], [], hxs, by rw [hsingle], hrest, by simp⟩
  | cons c rest =>
    rcases hrest.head_cases hword c rfl with rfl | hmark
    · obtain ⟨left, rfl, hleft⟩ := hrest.colon
      obtain ⟨y, ys, rest', hys, hcs, hrest', hend⟩ := exists_path hleft
      refine ⟨x, y :: ys, rest', List.forall_mem_cons.2 ⟨hx, hys⟩, ?_, hrest', hend⟩
      rw [hcs, toList_path, List.append_assoc]
      rfl
    · refine ⟨x, [], c :: rest, hxs, by rw [hsingle], hrest, ?_⟩
      rintro _ ⟨⟩
      exact hmark
termination_by cs.length
decreasing_by subst_vars; simp only [List.length_append, List.length_cons]; omega

mutual

/-- Where a name has to start, there is a type, with nothing but a separator behind it. -/
theorem exists_type {cs : List Char} {depth : Nat} (h : Reads depth true cs) :
    ∃ (t : TypeRef) (rest : List Char), t.AllNames IsIdentifier ∧ cs = t.text.toList ++ rest ∧
      Reads depth false rest ∧ ∀ c ∈ rest.head?, c = '>' ∨ c = ',' := by
  obtain ⟨x, xs, rest, hxs, hcs, hrest, hend⟩ := h.exists_path
  let p : Path := ⟨(x :: xs).map fun y => ⟨y, .nowhere⟩, .nowhere⟩
  have hnames : p.segments.map (·.name) = x :: xs := (List.map_map ..).trans (List.map_id _)
  have htext : p.text = "::".intercalate (x :: xs) := by rw [Path.text, hnames]
  cases rest with
  | nil =>
    refine ⟨.mk p [] .nowhere, [], .mk hnames hxs (by simp), ?_, hrest, by simp⟩
    rw [hcs, TypeRef.text, htext]
  | cons c rest =>
    rcases hend c rfl with rfl | hmark
    · have hlt : rest.length < cs.length := by
        rw [hcs, List.length_append, List.length_cons]
        omega
      obtain ⟨a, as, rest', has, hargs, hrest', hend'⟩ := exists_args hrest.less
      refine ⟨.mk p (a :: as) .nowhere, rest', .mk hnames hxs has, ?_, hrest', hend'⟩
      rw [hcs, hargs, TypeRef.toList_text_cons, htext]
      simp
    · refine ⟨.mk p [] .nowhere, c :: rest, .mk hnames hxs (by simp), ?_, hrest, ?_⟩
      · rw [hcs, TypeRef.text, htext]
      · rintro _ ⟨⟩
        exact hmark
termination_by 2 * cs.length

/-- Behind an opening bracket there are types up to the bracket that closes it. -/
theorem exists_args {cs : List Char} {depth : Nat} (h : Reads (depth + 1) true cs) :
    ∃ (a : TypeRef) (as : List TypeRef) (rest : List Char),
      (∀ b ∈ a :: as, b.AllNames IsIdentifier) ∧
      cs = a.text.toList ++ (as.flatMap (',' :: ·.text.toList) ++ '>' :: rest) ∧
      Reads depth false rest ∧ ∀ c ∈ rest.head?, c = '>' ∨ c = ',' := by
  obtain ⟨a, rest, ha, hcs, hrest, hend⟩ := exists_type h
  cases rest with
  | nil => exact absurd hrest.nil (Nat.succ_ne_zero depth)
  | cons c rest =>
    have hlt : rest.length < cs.length := by
      rw [hcs, List.length_append, List.length_cons]
      omega
    rcases hend c rfl with rfl | rfl
    · obtain ⟨-, hrest', hend'⟩ := hrest.greater
      exact ⟨a, [], rest, by simpa using ha, by simpa using hcs, hrest', hend'⟩
    · obtain ⟨b, bs, rest', hbs, hargs, hrest', hend'⟩ := exists_args hrest.comma.2
      refine ⟨a, b :: bs, rest', List.forall_mem_cons.2 ⟨ha, hbs⟩, ?_, hrest', hend'⟩
      rw [hcs, hargs]
      simp
termination_by 2 * cs.length + 1

end

end Reads

/-- An accepted spelling that is clear is the text of a type. -/
theorem exists_typeRef {raw name : String} (h : normalize raw = some name)
    (hclear : Clear name.toList) : ∃ t : TypeRef, t.AllNames IsIdentifier ∧ t.text = name := by
  obtain ⟨hchars, hpath⟩ := normalize_eq_some h
  have hreads : Reads 0 true name.toList := ⟨hchars, hpath, hclear⟩
  obtain ⟨t, rest, ht, hname, hrest, hend⟩ := hreads.exists_type
  cases rest with
  | nil => exact ⟨t, ht, String.toList_inj.1 (by rw [hname, List.append_nil])⟩
  | cons c rest =>
    rcases hend c rfl with rfl | rfl
    · exact absurd rfl hrest.greater.1
    · exact absurd rfl hrest.comma.1

/-! ## From types to spellings -/

/-- A word that is no keyword. -/
def IsWord (x : String) : Prop :=
  (∀ c ∈ x.toList, isWordChar c = true) ∧ TokenKind.ofWord x.toList = .identifier

theorem clear_path {x : String} {xs : List String} (h : ∀ y ∈ x :: xs, IsWord y)
    (hrest : ∀ c ∈ rest.head?, isWordChar c = false) (hclear : Clear rest) :
    Clear (("::".intercalate (x :: xs)).toList ++ rest) := by
  obtain ⟨hx, hxs⟩ := List.forall_mem_cons.1 h
  induction xs generalizing x with
  | nil =>
    rw [String.intercalate_singleton]
    exact (clear_append hx.1 hrest).2 ⟨hx.2, hclear⟩
  | cons y ys ih =>
    obtain ⟨hy, hys⟩ := List.forall_mem_cons.1 hxs
    rw [toList_path, List.append_assoc]
    refine (clear_append hx.1 (by rintro _ ⟨⟩; decide)).2 ⟨hx.2, ?_⟩
    exact (clear_cons rfl (by decide)).2 ((clear_cons rfl (by decide)).2 (ih hxs hy hys))

/-- Further type arguments are clear when each of them is, if a separator or nothing comes behind
their closing bracket. -/
theorem clear_behind {as : List TypeRef} (hend : ∀ c ∈ rest.head?, c = '>' ∨ c = ',')
    (hclear : Clear rest)
    (h : ∀ a ∈ as, ∀ {rest : List Char}, (∀ c ∈ rest.head?, c = '>' ∨ c = ',') → Clear rest →
      Clear (a.text.toList ++ rest)) :
    Clear (as.flatMap (',' :: ·.text.toList) ++ '>' :: rest) := by
  induction as with
  | nil => exact clear_greater.2 ⟨hend, hclear⟩
  | cons a as ih =>
    obtain ⟨ha, has⟩ := List.forall_mem_cons.1 h
    rw [List.flatMap_cons, List.append_assoc]
    refine (clear_cons rfl (by decide)).2 (ha ?_ (ih has))
    cases as <;> rintro _ ⟨⟩ <;> simp

/-- The text of a type is clear where a separator or nothing comes behind it. -/
theorem clear_text {t : TypeRef} (h : t.AllNames IsWord) {rest : List Char}
    (hend : ∀ c ∈ rest.head?, c = '>' ∨ c = ',') (hclear : Clear rest) :
    Clear (t.text.toList ++ rest) := by
  induction h generalizing rest with
  | @mk p args span x xs hx hxs _ ih =>
    have hpath {rest : List Char} (hrest : ∀ c ∈ rest.head?, isWordChar c = false)
        (hclear : Clear rest) : Clear (p.text.toList ++ rest) := by
      rw [Path.text, hx]
      exact clear_path hxs hrest hclear
    have hmark : ∀ c ∈ rest.head?, isWordChar c = false := by
      intro c hc
      rcases hend c hc with rfl | rfl <;> rfl
    cases args with
    | nil =>
      rw [TypeRef.text]
      exact hpath hmark hclear
    | cons a as =>
      obtain ⟨ha, has⟩ := List.forall_mem_cons.1 ih
      rw [TypeRef.toList_text_cons]
      simp only [List.append_assoc, List.cons_append, List.nil_append]
      refine hpath (by rintro _ ⟨⟩; decide) ((clear_cons rfl (by decide)).2 ?_)
      refine ha ?_ (clear_behind hend hclear has)
      cases as <;> rintro _ ⟨⟩ <;> simp

/-- The identifiers of a text without faults are words. -/
theorem isWord_of_spelled {kind : TokenKind} {stretch : List Char} (h : Spelled kind stretch rest)
    (hkind : kind = .identifier) : IsWord (String.ofList stretch) := by
  cases h with
  | string | interpolated => cases hkind
  | number hnumber =>
    rw [hkind] at hnumber
    rcases hnumber with hnumber | hnumber <;> cases hnumber
  | word hword =>
    rw [IsWord, String.toList_ofList]
    exact ⟨hword, hkind⟩
  | pair hpair =>
    rw [hkind] at hpair
    unfold pairMark at hpair
    split at hpair <;> cases hpair
  | mark hmark =>
    rw [hkind] at hmark
    unfold singleMark at hmark
    split at hmark <;> cases hmark

theorem names_ofChars {place : Place} {text : List Char}
    (h : ∀ lexeme ∈ (Lexemes.ofChars place text).lexemes, lexeme.errors = []) :
    Grammar.Names IsWord (Lexemes.ofChars place text).lexemes := by
  have hword : ∀ lexeme ∈ (Lexemes.ofChars place text).lexemes, lexeme.errors = [] →
      lexeme.token.kind = .identifier → IsWord (String.ofList lexeme.stretch) :=
    Lexemes.forall_mem_ofChars (fun _ _ _ _ herrors hkind =>
      isWord_of_spelled (spelled_scanToken herrors) hkind) place text
  intro lexeme hlexeme hkind
  rw [Lexemes.verbatim place text lexeme hlexeme (by rw [hkind]; decide)]
  exact hword lexeme hlexeme (h lexeme hlexeme) hkind

end Spelling

/-- In a unit that is parsed, the types of the parameters are made of words. -/
theorem SourceUnit.namesWords {text : String} {u : SourceUnit} (h : parse text = .ok u) :
    ∀ m ∈ u.modules, ∀ t ∈ m.types, ∀ f ∈ t.functions, Grammar.ParamsNamed Spelling.IsWord f := by
  obtain ⟨⟨rest, hyields⟩, herrors⟩ := SourceUnit.parse_eq_ok.1 ⟨u.span, h⟩
  exact Grammar.Names.declarations (.ofChars herrors) (Spelling.names_ofChars herrors) hyields

end TypedTemplate
