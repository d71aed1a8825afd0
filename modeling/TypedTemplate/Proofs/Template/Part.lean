-- SUMMARY: Templates as texts, doubled braces and holes, and what embedding makes of them.
import TypedTemplate.Model.Shape
import TypedTemplate.Model.Value
import TypedTemplate.Proofs.Token.Cut
import TypedTemplate.Template.Embed

/-!
# Parts of templates

A template is written as texts, doubled braces and holes. A hole reads a field of the
model and may have a text for a null. Embedding drops the line breaks of the texts
and escapes their quotes; the doubled quotes around the text of a hole become bare
ones. Quotes in a text may not meet, or they too would become a bare one.
-/

namespace TypedTemplate

/-- No quote stands directly behind another. -/
def quotesApart : List Char → Bool
  | '"' :: '"' :: _ => false
  | _ :: cs         => quotesApart cs
  | []              => true

/-- A hole that reads a field, with the text to show where the field is null. -/
structure TemplateHole where
  field : String
  default : Option (List Char)
deriving DecidableEq, Repr

inductive TemplatePart where
  | text (cs : List Char)
  /-- An opening or a closing brace. -/
  | brace (opening : Bool)
  | hole (h : TemplateHole)
deriving DecidableEq, Repr

namespace TemplateHole

/-- The hole's expression where quotes are written as `quote`. -/
def code (quote : List Char) (h : TemplateHole) : List Char :=
  "model.".toList ++ (h.field.toList ++
    match h.default with
    | none   => []
    | some s => " ?? ".toList ++ (quote ++ (s ++ quote)))

theorem code_of_none {h : TemplateHole} (hdefault : h.default = none) (quote : List Char) :
    h.code quote = "model.".toList ++ h.field.toList := by
  unfold code
  rw [hdefault, List.append_nil]

theorem code_of_some {h : TemplateHole} {s : List Char} (hdefault : h.default = some s)
    (quote : List Char) : h.code quote =
      "model.".toList ++ (h.field.toList ++ (" ?? ".toList ++ (quote ++ (s ++ quote)))) := by
  unfold code
  rw [hdefault]

/-- The text shown for a value of the field. -/
def render (h : TemplateHole) (v : Value) : String :=
  match h.default with
  | none   => v.render
  | some s => if v.isNull then String.ofList s else v.render

/-- The hole names a field of the shape, which holds strings if a text is given for null. -/
structure Valid (shape : Shape) (h : TemplateHole) : Prop where
  identifier : IsIdentifier h.field
  field : ∃ i f, shape.field h.field = some (i, f) ∧ (h.default.isSome → f.kind.base = .str)
  default : ∀ s, h.default = some s →
    ∀ c ∈ s, c ≠ '"' ∧ c ≠ '\\' ∧ Embed.isLineBreak c = false

end TemplateHole

namespace TemplatePart

def isText : TemplatePart → Bool
  | .text _ => true
  | _       => false

/-- The brace of a part. -/
def braceChar (opening : Bool) : Char := if opening then '\x7b' else '\x7d'

/-- The part as a template has it. -/
def source : TemplatePart → List Char
  | .text cs  => cs
  | .brace b  => [braceChar b, braceChar b]
  | .hole h   => '\x7b' :: (h.code ['"', '"'] ++ ['\x7d'])

/-- The part as it is in the literal of a unit. -/
def embedded : TemplatePart → List Char
  | .text cs  => Embed.escapeQuotes (cs.filter (!Embed.isLineBreak ·))
  | .brace b  => [braceChar b, braceChar b]
  | .hole h   => '\x7b' :: (h.code ['"'] ++ ['\x7d'])

/-- What the part can have in a template for models of the shape. -/
def Valid (shape : Shape) : TemplatePart → Prop
  | .text cs  => (∀ c ∈ cs, c ≠ '\x7b' ∧ c ≠ '\x7d' ∧ c ≠ '\\') ∧
      quotesApart (cs.filter (!Embed.isLineBreak ·)) = true
  | .brace _  => True
  | .hole h   => h.Valid shape

/-- The text of the template with the parts. -/
def template (ps : List TemplatePart) : String := String.ofList (ps.flatMap source)

/-- No two texts are neighbours. -/
def textsApart : List TemplatePart → Bool
  | .text _ :: .text _ :: _ => false
  | _ :: ps                 => textsApart ps
  | []                      => true

end TemplatePart

/-! ## Embedding -/

namespace Embed

/-- Only a backslash starts what is replaced. -/
theorem bareQuotesOnto_cons {out cs : List Char} {c : Char} (hc : c ≠ '\\') :
    bareQuotesOnto out (c :: cs) = bareQuotesOnto (c :: out) cs := by
  rw [bareQuotesOnto.eq_def]
  split <;> simp_all

theorem bareQuotesOnto_plain {out cs rest : List Char} (h : ∀ c ∈ cs, c ≠ '\\') :
    bareQuotesOnto out (cs ++ rest) = bareQuotesOnto (cs.reverse ++ out) rest := by
  induction cs generalizing out with
  | nil => rfl
  | cons c cs ih =>
    rw [List.cons_append, bareQuotesOnto_cons (h c List.mem_cons_self),
      ih fun c hc => h c (List.mem_cons_of_mem _ hc)]
    simp

/-- An escaped quote stays if no other follows. -/
theorem bareQuotesOnto_quote {out rest : List Char} (h : rest.head? ≠ some '\\') :
    bareQuotesOnto out ('\\' :: '"' :: rest) = bareQuotesOnto ('"' :: '\\' :: out) rest := by
  rw [bareQuotesOnto.eq_def]
  split
  · rename_i heq
    simp_all
  · rename_i heq
    obtain ⟨rfl, rfl⟩ := List.cons.inj heq
    exact bareQuotesOnto_cons (by decide)
  · rename_i heq
    cases heq

theorem escapeQuotes_append (cs cs' : List Char) :
    escapeQuotes (cs ++ cs') = escapeQuotes cs ++ escapeQuotes cs' := by
  simp [escapeQuotes]

theorem escapeQuotes_plain {cs : List Char} (h : ∀ c ∈ cs, c ≠ '"') : escapeQuotes cs = cs := by
  induction cs with
  | nil => rfl
  | cons c cs ih =>
    have hc := h c List.mem_cons_self
    have hcs := ih fun c hc => h c (List.mem_cons_of_mem _ hc)
    simp only [escapeQuotes, List.flatMap_cons] at hcs ⊢
    rw [hcs]
    simp [hc]

/-- Quotes that are apart stay escaped. -/
theorem bareQuotesOnto_escapeQuotes {out cs rest : List Char} (hcs : ∀ c ∈ cs, c ≠ '\\')
    (hapart : quotesApart cs = true) (hrest : rest.head? ≠ some '\\') :
    bareQuotesOnto out (escapeQuotes cs ++ rest) =
      bareQuotesOnto ((escapeQuotes cs).reverse ++ out) rest := by
  induction cs generalizing out with
  | nil => rfl
  | cons c cs ih =>
    have htail : ∀ c ∈ cs, c ≠ '\\' := fun c hc => hcs c (List.mem_cons_of_mem _ hc)
    by_cases hc : c = '"'
    · subst hc
      have hnext : cs.head? ≠ some '"' := by
        rintro h
        cases cs with
        | nil => simp at h
        | cons d cs =>
          obtain rfl : d = '"' := by simpa using h
          simp [quotesApart] at hapart
      have hapart : quotesApart cs = true := by
        rw [quotesApart.eq_def] at hapart
        split at hapart <;> simp_all
      have hhead : (escapeQuotes cs ++ rest).head? ≠ some '\\' := by
        cases cs with
        | nil => exact hrest
        | cons d cs =>
          have hd : d ≠ '"' := by simpa using hnext
          simpa [escapeQuotes, hd] using htail d List.mem_cons_self
      have hescape : escapeQuotes ('"' :: cs) = '\\' :: '"' :: escapeQuotes cs := rfl
      rw [hescape, List.cons_append, List.cons_append, bareQuotesOnto_quote hhead, ih htail hapart]
      simp
    · have hapart : quotesApart cs = true := by
        rw [quotesApart.eq_def] at hapart
        split at hapart <;> simp_all
      have hescape : escapeQuotes (c :: cs) = c :: escapeQuotes cs := by simp [escapeQuotes, hc]
      rw [hescape, List.cons_append, bareQuotesOnto_cons (hcs c List.mem_cons_self), ih htail hapart]
      simp

theorem bareQuotesOnto_pair {out rest : List Char} :
    bareQuotesOnto out ('\\' :: '"' :: '\\' :: '"' :: rest) = bareQuotesOnto ('"' :: out) rest := by
  rw [bareQuotesOnto]

end Embed

namespace IsIdentifier

variable {x : String}

theorem ne_of_not_wordChar (h : IsIdentifier x) {d : Char} (hd : isWordChar d = false) :
    ∀ c ∈ x.toList, c ≠ d := by
  rintro c hc rfl
  rw [h.2.1 c hc] at hd
  cases hd

end IsIdentifier

namespace TemplateHole

variable {shape : Shape} {h : TemplateHole}

/-- In the code of a hole nothing but its quotes is special. -/
theorem forall_mem_code {quote : List Char} {P : Char → Prop} (hh : h.Valid shape)
    (hword : ∀ c, isWordChar c = true → P c) (hdot : P '.') (hblank : P ' ') (hmark : P '?')
    (hquote : ∀ c ∈ quote, P c)
    (hplain : ∀ c, c ≠ '"' → c ≠ '\\' → Embed.isLineBreak c = false → P c) :
    ∀ c ∈ h.code quote, P c := by
  intro c hc
  rcases List.mem_append.1 hc with hc | hc
  · rcases (by decide : ∀ c ∈ "model.".toList, isWordChar c = true ∨ c = '.') c hc with hc | rfl
    · exact hword c hc
    · exact hdot
  rcases List.mem_append.1 hc with hc | hc
  · exact hword c (hh.identifier.2.1 c hc)
  · cases hdefault : h.default with
    | none => simp [hdefault] at hc
    | some s =>
      simp only [hdefault] at hc
      rcases List.mem_append.1 hc with hc | hc
      · rcases (by decide : ∀ c ∈ " ?? ".toList, c = ' ' ∨ c = '?') c hc with rfl | rfl
        · exact hblank
        · exact hmark
      rcases List.mem_append.1 hc with hc | hc
      · exact hquote c hc
      rcases List.mem_append.1 hc with hc | hc
      · obtain ⟨h₁, h₂, h₃⟩ := hh.default s hdefault c hc
        exact hplain c h₁ h₂ h₃
      · exact hquote c hc

end TemplateHole

namespace TemplatePart

variable {shape : Shape} {p : TemplatePart} {ps : List TemplatePart}

theorem filter_source (hp : p.Valid shape) (hplain : p.isText = false) :
    p.source.filter (!Embed.isLineBreak ·) = p.source := by
  cases p with
  | text cs => cases hplain
  | brace b => cases b <;> decide
  | hole h =>
    have hword : ∀ c, isWordChar c = true → (!Embed.isLineBreak c) = true := by
      intro c hc
      have hne : c ≠ '\n' ∧ c ≠ '\r' := by constructor <;> (rintro rfl; cases hc)
      simp [Embed.isLineBreak, hne.1, hne.2]
    refine List.filter_eq_self.2 fun c hc => ?_
    rcases List.mem_cons.1 hc with rfl | hc
    · decide
    rcases List.mem_append.1 hc with hc | hc
    · exact TemplateHole.forall_mem_code (P := fun c => (!Embed.isLineBreak c) = true) hp hword
        (by decide) (by decide) (by decide) (by decide) (by simp_all) c hc
    · obtain rfl := List.mem_singleton.1 hc
      decide

theorem bareQuotesOnto_hole {h : TemplateHole} {out rest : List Char} (hh : h.Valid shape) :
    Embed.bareQuotesOnto out (Embed.escapeQuotes (source (.hole h)) ++ rest) =
      Embed.bareQuotesOnto ((embedded (.hole h)).reverse ++ out) rest := by
  let start := '\x7b' :: ("model.".toList ++ h.field.toList)
  have hstart : ∀ d, d = '"' ∨ d = '\\' → ∀ c ∈ start, c ≠ d := by
    intro d hd c hc
    rcases List.mem_cons.1 hc with rfl | hc
    · rcases hd with rfl | rfl <;> decide
    rcases List.mem_append.1 hc with hc | hc
    · rcases hd with rfl | rfl
      · exact (by decide : ∀ c ∈ "model.".toList, c ≠ '"') c hc
      · exact (by decide : ∀ c ∈ "model.".toList, c ≠ '\\') c hc
    · exact hh.identifier.ne_of_not_wordChar (by rcases hd with rfl | rfl <;> decide) c hc
  have hquotes := hstart '"' (.inl rfl)
  have hescapes := hstart '\\' (.inr rfl)
  cases hdefault : h.default with
  | none =>
    have hsource : source (.hole h) = start ++ ['\x7d'] := by
      simp [source, TemplateHole.code_of_none hdefault, start]
    have hembedded : embedded (.hole h) = start ++ ['\x7d'] := by
      simp [embedded, TemplateHole.code_of_none hdefault, start]
    rw [hsource, hembedded, Embed.escapeQuotes_append, Embed.escapeQuotes_plain hquotes,
      List.append_assoc, Embed.bareQuotesOnto_plain hescapes]
    simp [Embed.escapeQuotes, Embed.bareQuotesOnto_cons]
  | some s =>
    have hs := hh.default s hdefault
    have hsource : source (.hole h) =
        start ++ (" ?? \"\"".toList ++ (s ++ ['"', '"', '\x7d'])) := by
      simp [source, TemplateHole.code_of_some hdefault, start]
    have hembedded : embedded (.hole h) = start ++ (" ?? \"".toList ++ (s ++ ['"', '\x7d'])) := by
      simp [embedded, TemplateHole.code_of_some hdefault, start]
    have hsplain : Embed.escapeQuotes s = s := Embed.escapeQuotes_plain fun c hc => (hs c hc).1
    have hmiddle : Embed.escapeQuotes " ?? \"\"".toList =
        " ?? ".toList ++ ['\\', '"', '\\', '"'] := by decide
    have hend : Embed.escapeQuotes ['"', '"', '\x7d'] = ['\\', '"', '\\', '"', '\x7d'] := by decide
    rw [hsource, hembedded, Embed.escapeQuotes_append, Embed.escapeQuotes_append,
      Embed.escapeQuotes_append, Embed.escapeQuotes_plain hquotes, hsplain, hmiddle, hend,
      List.append_assoc, Embed.bareQuotesOnto_plain hescapes]
    simp only [List.append_assoc, List.cons_append, List.nil_append]
    rw [Embed.bareQuotesOnto_plain (by decide), Embed.bareQuotesOnto_pair,
      Embed.bareQuotesOnto_plain fun c hc => (hs c hc).2.1, Embed.bareQuotesOnto_pair,
      Embed.bareQuotesOnto_cons (by decide)]
    simp

theorem bareQuotesOnto_source {out rest : List Char} (hp : p.Valid shape)
    (hrest : p.isText = true → rest.head? ≠ some '\\') :
    Embed.bareQuotesOnto out
        (Embed.escapeQuotes (p.source.filter (!Embed.isLineBreak ·)) ++ rest) =
      Embed.bareQuotesOnto (p.embedded.reverse ++ out) rest := by
  cases p with
  | text cs =>
    refine Embed.bareQuotesOnto_escapeQuotes (fun c hc => ?_) hp.2 (hrest rfl)
    exact (hp.1 c (List.mem_filter.1 hc).1).2.2
  | brace b =>
    rw [filter_source hp rfl]
    have hb : braceChar b ≠ '"' ∧ braceChar b ≠ '\\' := by cases b <;> decide
    simp [source, embedded, Embed.escapeQuotes, hb, Embed.bareQuotesOnto_cons]
  | hole h =>
    rw [filter_source hp rfl]
    exact bareQuotesOnto_hole hp

/-- A part that is no text starts with a brace. -/
theorem head?_source (hplain : p.isText = false) (rest : List Char) :
    ((Embed.escapeQuotes (p.source.filter (!Embed.isLineBreak ·))) ++ rest).head? ≠ some '\\' := by
  cases p with
  | text cs => cases hplain
  | brace b => cases b <;> simp [source, braceChar, Embed.escapeQuotes, Embed.isLineBreak]
  | hole h => simp [source, Embed.escapeQuotes, Embed.isLineBreak]

/-- Embedding keeps the parts apart. -/
theorem embedChars_source (hps : ∀ p ∈ ps, p.Valid shape) (hapart : textsApart ps = true) :
    Embed.embedChars (ps.flatMap source) = ps.flatMap embedded := by
  have hall : ∀ out, Embed.bareQuotesOnto out
      (Embed.escapeQuotes ((ps.flatMap source).filter (!Embed.isLineBreak ·))) =
        out.reverse ++ ps.flatMap embedded := by
    induction ps with
    | nil =>
      intro out
      simp [Embed.escapeQuotes, Embed.bareQuotesOnto]
    | cons p ps ih =>
      intro out
      have hrest : p.isText = true → (Embed.escapeQuotes
          ((ps.flatMap source).filter (!Embed.isLineBreak ·))).head? ≠ some '\\' := by
        intro hp
        cases ps with
        | nil => simp [Embed.escapeQuotes]
        | cons q ps =>
          have hq : q.isText = false := by
            cases p <;> cases q <;> simp_all [textsApart, isText]
          rw [List.flatMap_cons, List.filter_append, Embed.escapeQuotes_append]
          exact head?_source hq _
      have hapart : textsApart ps = true := by
        rw [textsApart.eq_def] at hapart
        split at hapart <;> simp_all
      rw [List.flatMap_cons, List.filter_append, Embed.escapeQuotes_append,
        bareQuotesOnto_source (hps p List.mem_cons_self) hrest,
        ih (fun q hq => hps q (List.mem_cons_of_mem p hq)) hapart]
      simp
  exact hall []

end TemplatePart

end TypedTemplate
