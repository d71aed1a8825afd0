-- SUMMARY: The code of an expression pushes the value of the expression.
import TypedTemplate.Proofs.Compile.Infer
import TypedTemplate.Proofs.Compile.Invariant
import TypedTemplate.Proofs.Semantics.Build

/-!
# Compiled expressions

When an expression compiles, its code, wherever it stands and whatever is on the
stack, pushes the value that evaluation in the build gives, or fails as that does.
The proof goes along the recursion of the compiler, with one lemma for each kind
of code.
-/

namespace TypedTemplate

namespace Context

variable {c : Context} {P P' Q : Pool} {code : Code} {t : Ty} {span : Span} {env : Env}
  {locals : Array Value}

/-! ## Constants -/

/-- The pool `Q` is a later one, from which the code reads its constants. -/
theorem constant_pushes {k : Constant} {a : PUnit} (hQ : Q.Consistent)
    (h : Emit.constant span k P = ⟨.ok a, code, P'⟩) (hin : P'.Within Q) :
    code.Pushes Q locals (.ok (k.value.readBy Q.readFloat)) := by
  obtain ⟨hsize, rfl, rfl⟩ := Emit.constant_ok.1 h
  have hindex := hin.index k.key _ (Pool.index_add P k)
  obtain ⟨d, hd, hvalue⟩ := Pool.get?_of_index hQ hindex
  intro stack
  apply Code.Runs.instr
  intro offset next
  simp only [Instr.step, Code.toNat_ofNat hsize, hd, hvalue]
  rfl

theorem instr_pushes {i : Instr} {v : Value} {a : PUnit}
    (hstep : ∀ s f, i.step s f = .ok (.next (f.push v)))
    (h : Emit.instr span i P = ⟨.ok a, code, P'⟩) : code.Pushes Q locals (.ok v) := by
  obtain ⟨rfl, rfl⟩ := Emit.instr_ok.1 h
  intro stack
  exact Code.Runs.instr fun offset next => hstep _ _

theorem int_pushes {i : Int64} {a : PUnit} (hQ : Q.Consistent)
    (h : Emit.int span i P = ⟨.ok a, code, P'⟩) (hin : P'.Within Q) :
    code.Pushes Q locals (.ok (.int i)) := by
  unfold Emit.int at h
  by_cases hzero : i = 0
  · subst hzero
    exact instr_pushes (fun _ _ => rfl) h
  · by_cases hone : i = 1
    · subst hone
      exact instr_pushes (fun _ _ => rfl) h
    · rw [if_neg hzero, if_neg hone] at h
      exact constant_pushes hQ h hin

theorem value_pushes {v : Value} {a : PUnit} (hQ : Q.Consistent)
    (h : Emit.value span v P = ⟨.ok a, code, P'⟩) (hin : P'.Within Q) :
    code.Pushes Q locals (.ok (v.readBy Q.readFloat)) := by
  cases v with
  | null => exact instr_pushes (fun _ _ => rfl) h
  | bool b => exact instr_pushes (fun _ _ => rfl) h
  | int i => exact int_pushes hQ h hin
  | uint u => exact constant_pushes hQ h hin
  | float x => exact constant_pushes hQ h hin
  | str s => exact constant_pushes hQ h hin
  | object m => simp [Emit.value, Emit.fail] at h

theorem literal_pushes {l : Literal} (hQ : Q.Consistent)
    (h : literal span l P = ⟨.ok t, code, P'⟩) (hin : P'.Within Q) :
    code.Pushes Q locals (.ok (l.value.readBy Q.readFloat)) := by
  cases l <;> simp only [literal, Emit.bind_ok, Emit.pure_ok] at h <;>
    obtain ⟨_, _, _, _, hemit, ⟨rfl, rfl, rfl⟩, rfl⟩ := h <;> rw [List.append_nil]
  · exact int_pushes hQ hemit hin
  · exact constant_pushes hQ hemit hin
  · exact instr_pushes (fun _ _ => rfl) hemit
  · exact constant_pushes hQ hemit hin
  · exact instr_pushes (fun _ _ => rfl) hemit

/-- The build that the context makes when its code reads constants from `Q`. -/
def build (c : Context) (Q : Pool) : Build := ⟨c.options.folds, Q.readFloat⟩

theorem fold_pushes {e : Expr} {m : Emit Ty} {x : Except RuntimeError Value} (hQ : Q.Consistent)
    (h : c.fold e m P = ⟨.ok t, code, P'⟩) (hin : P'.Within Q)
    (hm : m P = ⟨.ok t, code, P'⟩ → code.Pushes Q locals x) :
    code.Pushes Q locals ((c.build Q).fold e x) := by
  unfold Build.fold
  have hconstant : e.folded? (c.build Q).folds = if c.options.folds then e.constant? else none := rfl
  rw [hconstant]
  rcases fold_ok h with ⟨v, _, _, hv, -, hvalue⟩ | ⟨hnone, hcode⟩
  · rw [hv]
    exact value_pushes hQ hvalue hin
  · rw [hnone]
    exact hm hcode

/-! ## Names, fields and methods -/

theorem name_pushes {x : Ident} (hs : c.scope.Agrees env locals)
    (h : c.name x P = ⟨.ok t, code, P'⟩) : code.Pushes Q locals (.ok (env.value x.name)) := by
  obtain ⟨slot, l, hget, -, rfl, -⟩ := name_ok h
  obtain ⟨v, hv, hslot⟩ := hs.bound x.name slot l hget
  have hlt : slot < 256 := Nat.lt_of_lt_of_le (Scope.lt_of_get? hget) hs.room
  have hvalue : env.value x.name = v := by simp [Env.value, hv]
  intro stack
  apply Code.Runs.instr
  intro offset next
  have hnat : (UInt8.ofNat slot).toNat = slot := by simpa using Nat.mod_eq_of_lt hlt
  simp only [Instr.step, hnat, hslot, hvalue]
  rfl

theorem member_maps {u : Ty} {field : Ident} (hQ : Q.Consistent)
    (h : c.member t field span P = ⟨.ok u, code, P'⟩) (hin : P'.Within Q) :
    code.Maps Q locals (·.evalField c.registry t.kind field.name) := by
  obtain ⟨index, hrule, hfield⟩ := member_ok h
  obtain ⟨hsize, hname, rfl, rfl⟩ := Emit.getField_ok.1 hfield
  have hstr := Pool.str?_of_index hQ (hin.index _ _ (Pool.index_add P (.str field.name)))
  apply Code.Maps.instr
  intro offset next v stack
  simp only [Instr.step, Frame.mapTop_cons]
  congr 1
  cases v with
  | object m =>
    have hindex := fieldIndex?_of_member hrule
    cases hm : m.field index with
    | some w => simp [Site.field, Value.evalField, hindex, Code.toNat_ofNat hsize, hm]
    | none =>
      simp [Site.field, Value.evalField, hindex, Code.toNat_ofNat hsize, Code.toNat_ofNat hname,
        hstr, hm]
  | _ => rfl

theorem kind_of_infer (hs : c.scope.Agrees env locals) {e : Expr}
    (h : c.infer e P = ⟨.ok t, code, P'⟩) : e.kind c.registry env = t.kind := by
  simp [Expr.kind, infer_type hs.types e h]

end Context

/-! ## Interpolation -/

/-- The values that are pushed for the pieces, the top first, and the text of all pieces. Text is kept
back only where the build folds. -/
structure Pieces.Holds (p : Pieces) (folds : Bool) (vs : List Value) (s : String) : Prop where
  count : p.count = vs.length
  onlyText : p.onlyText = true → ∀ v ∈ vs, ∃ t, v = .str t
  pending : folds = false → p.pending = none
  text : String.join (vs.reverse.map Value.render) ++ p.pending.getD "" = s

theorem Pieces.holds_start (span : Span) (folds : Bool) : (start span).Holds folds [] "" :=
  ⟨rfl, fun _ v hv => by simp at hv, fun _ => rfl, rfl⟩

/-- The code pushes pieces with the text that `r` gives, which leads from `p` to `q`. -/
def Code.Collects (pool : Pool) (locals : Array Value) (folds : Bool) (p q : Pieces) (code : Code)
    (r : Except RuntimeError String) : Prop :=
  ∀ vs s, p.Holds folds vs s →
    match r with
    | .error e => ∀ stack, code.Runs pool ⟨vs ++ stack, locals⟩ (.error e)
    | .ok t    => ∃ ws, q.Holds folds ws (s ++ t) ∧
      ∀ stack, code.Runs pool ⟨vs ++ stack, locals⟩ (.ok ⟨ws ++ stack, locals⟩)

section

variable {pool : Pool} {locals : Array Value} {folds : Bool} {p p' q : Pieces} {a b : Code}

theorem Code.Collects.nil : Code.Collects pool locals folds p p [] (.ok "") := by
  intro vs s h
  exact ⟨vs, by simpa using h, fun stack => Code.Runs.nil _⟩

/-- Text that is kept back needs no code. -/
theorem Code.Collects.keep {t : String} (hfolds : folds = true) (hcount : q.count = p.count)
    (honly : q.onlyText = p.onlyText) (hpending : q.pending = some (p.pending.getD "" ++ t)) :
    Code.Collects pool locals folds p q [] (.ok t) := by
  intro vs s h
  have htext : String.join (vs.reverse.map Value.render) ++ q.pending.getD "" = s ++ t := by
    rw [hpending, Option.getD_some, ← String.append_assoc, h.text]
  have hq : q.Holds folds vs (s ++ t) :=
    ⟨hcount.trans h.count, honly ▸ h.onlyText, fun hoff => by simp [hfolds] at hoff, htext⟩
  exact ⟨vs, hq, fun stack => Code.Runs.nil _⟩

theorem Code.Collects.append {x y : Except RuntimeError String}
    (ha : a.Collects pool locals folds p p' x) (hb : b.Collects pool locals folds p' q y) :
    (a ++ b).Collects pool locals folds p q (x.bind fun t => y.bind fun u => .ok (t ++ u)) := by
  intro vs s h
  have hstart := ha vs s h
  cases x with
  | error e =>
    intro stack
    exact (hstart stack).append_error _
  | ok t =>
    obtain ⟨ws, hws, hrun⟩ := hstart
    have hnext := hb ws (s ++ t) hws
    cases y with
    | error e =>
      intro stack
      exact (hrun stack).append (hnext stack)
    | ok u =>
      obtain ⟨us, hus, hrun'⟩ := hnext
      refine ⟨us, by simpa [String.append_assoc] using hus, fun stack => ?_⟩
      exact (hrun stack).append (hrun' stack)

theorem Code.Collects.append_empty {x : Except RuntimeError String}
    (ha : a.Collects pool locals folds p p' (.ok ""))
    (hb : b.Collects pool locals folds p' q x) : (a ++ b).Collects pool locals folds p q x := by
  have hbind : (x.bind fun u => .ok ("" ++ u)) = x := by
    cases x <;> simp [Except.bind]
  have happend := ha.append hb
  rw [← hbind]
  exact happend

/-- One more piece on top, when no text is pending. -/
theorem Pieces.Holds.push {vs : List Value} {s : String} (h : p.Holds folds vs s)
    (hpending : p.pending = none) (v : Value) (hq : q.count = p.count + 1)
    (honly : q.onlyText = true → p.onlyText = true ∧ ∃ t, v = .str t) (hnone : q.pending = none) :
    q.Holds folds (v :: vs) (s ++ v.render) := by
  refine ⟨by simp [hq, h.count], fun hq w hw => ?_, fun _ => hnone, ?_⟩
  · obtain ⟨hp, hv⟩ := honly hq
    rcases List.mem_cons.1 hw with rfl | hw
    · exact hv
    · exact h.onlyText hp w hw
  · have htext := h.text
    simp only [hpending, Option.getD_none, String.append_empty] at htext
    simp [String.join, hnone, ← htext]

/-- A value pushed as a piece. -/
theorem Code.Collects.push {x : Except RuntimeError Value} (ha : a.Pushes pool locals x)
    (hpending : p.pending = none) (hq : q.count = p.count + 1)
    (honly : q.onlyText = true → p.onlyText = true ∧ ∀ v, x = .ok v → ∃ t, v = .str t)
    (hnone : q.pending = none) :
    a.Collects pool locals folds p q (x.map Value.render) := by
  intro vs s h
  cases x with
  | error e => exact fun stack => ha (vs ++ stack)
  | ok v =>
    have honly' (hq : q.onlyText = true) : p.onlyText = true ∧ ∃ t, v = .str t :=
      ⟨(honly hq).1, (honly hq).2 v rfl⟩
    exact ⟨v :: vs, h.push hpending v hq honly' hnone, fun stack => ha (vs ++ stack)⟩

end

namespace Pieces

variable {c : Context} {P P' Q : Pool} {code : Code} {t : Ty} {span : Span} {locals : Array Value}
  {p q : Pieces} {folds : Bool} {s : String}

theorem pushText_collects (hQ : Q.Consistent) (h : p.pushText s P = ⟨.ok q, code, P'⟩)
    (hin : P'.Within Q) (hpending : p.pending = none) :
    code.Collects Q locals folds p q (.ok s) ∧ q.pending = none := by
  simp only [pushText, Emit.bind_ok, Emit.pure_ok] at h
  obtain ⟨_, _, _, _, hstr, ⟨rfl, rfl, rfl⟩, rfl⟩ := h
  have hpush : Code.Pushes Q locals _ (.ok (.str s)) := Context.constant_pushes hQ hstr hin
  refine ⟨?_, hpending⟩
  rw [List.append_nil]
  refine Code.Collects.push hpush hpending rfl (fun honly => ⟨honly, fun v hv => ?_⟩) hpending
  cases hv
  exact ⟨s, rfl⟩

/-- What is pending is pushed, which changes no text. -/
theorem flush_collects (hQ : Q.Consistent) (h : p.flush P = ⟨.ok q, code, P'⟩)
    (hin : P'.Within Q) :
    code.Collects Q locals folds p q (.ok "") ∧ q.pending = none := by
  unfold flush at h
  cases hpending : p.pending with
  | none =>
    simp only [hpending, Emit.pure_ok] at h
    obtain ⟨rfl, rfl, rfl⟩ := h
    exact ⟨Code.Collects.nil, hpending⟩
  | some s =>
    simp only [hpending] at h
    obtain ⟨hcode, hnone⟩ : Code.Collects Q locals folds _ q code (.ok s) ∧ _ :=
      pushText_collects hQ h hin rfl
    refine ⟨fun vs text hp => ?_, hnone⟩
    have hp' : { p with pending := none }.Holds folds vs (String.join (vs.reverse.map Value.render)) :=
      ⟨hp.count, hp.onlyText, fun _ => rfl, by simp⟩
    have htext : String.join (vs.reverse.map Value.render) ++ s = text ++ "" := by
      simpa [hpending] using hp.text
    obtain ⟨ws, hws, hrun⟩ := hcode vs _ hp'
    exact ⟨ws, htext ▸ hws, hrun⟩

theorem addText_collects (hQ : Q.Consistent) (h : p.addText folds s P = ⟨.ok q, code, P'⟩)
    (hin : P'.Within Q) : code.Collects Q locals folds p q (.ok s) := by
  unfold addText at h
  cases folds with
  | true =>
    simp only [if_true, Emit.pure_ok] at h
    obtain ⟨rfl, rfl, rfl⟩ := h
    exact Code.Collects.keep rfl rfl rfl rfl
  | false =>
    intro vs text hp
    exact (pushText_collects hQ h hin (hp.pending rfl)).1 vs text hp

/-- Joining gives the text of all pieces. -/
theorem join_runs (hQ : Q.Consistent) (h : p.join span P = ⟨.ok t, code, P'⟩) (hin : P'.Within Q)
    {vs : List Value} (hp : p.Holds folds vs s) (stack : List Value) :
    code.Runs Q ⟨vs ++ stack, locals⟩ (.ok ⟨.str s :: stack, locals⟩) := by
  obtain ⟨-, q, c₁, P₁, c₂, hflush, rfl, hjoin⟩ := Context.join_ok h
  have hin₁ : P₁.Within Q := by
    rcases hjoin with ⟨-, hstr⟩ | ⟨-, -, -, rfl⟩ | ⟨-, -, rfl⟩
    · exact ((Emit.grows.constant span _).within hstr).trans hin
    · exact hin
    · exact hin
  obtain ⟨hcollects, hnone⟩ : Code.Collects Q locals folds p q c₁ (.ok "") ∧ _ :=
    flush_collects hQ hflush hin₁
  obtain ⟨ws, hws, hrun⟩ := hcollects vs s hp
  have htext : String.join (ws.reverse.map Value.render) = s := by simpa [hnone] using hws.text
  apply (hrun stack).append
  rcases hjoin with ⟨hzero, hstr⟩ | ⟨hone, honly, rfl, -⟩ | ⟨hcount, rfl, -⟩
  · obtain rfl : ws = [] := List.length_eq_zero_iff.1 (hws.count ▸ hzero)
    have hs : s = "" := by simpa [String.join] using htext.symm
    subst hs
    exact Context.constant_pushes hQ hstr hin stack
  · obtain ⟨w, rfl⟩ := List.length_eq_one_iff.1 (hws.count ▸ hone)
    obtain ⟨t, rfl⟩ := hws.onlyText honly w (by simp)
    have hs : t = s := by simpa [String.join, Value.render] using htext
    subst hs
    exact Code.Runs.nil _
  · apply Code.Runs.instr
    intro offset next
    have hlength : ¬(ws ++ stack).length < ws.length := by simp
    have hn : (UInt16.ofNat q.count).toNat = ws.length := (Code.toNat_ofNat hcount).trans hws.count
    simp only [Instr.step, hn, if_neg hlength, List.take_left, List.drop_left, htext]
    rfl

/-- The pieces of an interpolated string, joined. -/
theorem interpolated_pushes {a : Code} {x : Except RuntimeError String} (hQ : Q.Consistent)
    (ha : a.Collects Q locals folds (start span) p x) (h : p.join span P = ⟨.ok t, code, P'⟩)
    (hin : P'.Within Q) : (a ++ code).Pushes Q locals (x.map .str) := by
  have hstart := ha [] "" (holds_start span folds)
  intro stack
  cases x with
  | error e => exact (hstart stack).append_error _
  | ok s =>
    obtain ⟨vs, hvs, hrun⟩ := hstart
    rw [String.empty_append] at hvs
    exact (hrun stack).append (join_runs hQ h hin hvs stack)

end Pieces

namespace Context

variable {c : Context} {Q : Pool} {env : Env} {locals : Array Value}

/-! ## Expressions -/

/-- The value of a hole is pushed as it is, or as text under a format. -/
theorem hole_pushes {format : Option FormatSpec} {x : Except RuntimeError Value}
    {a b : Code} (ha : a.Pushes Q locals x)
    (hb : b = (format.map fun spec => ⟨spec.span.line, .format spec.kind⟩).toList) :
    ∃ y : Except RuntimeError Value, (a ++ b).Pushes Q locals y ∧
      y.map Value.render = x.bind (Value.evalHole format) := by
  subst hb
  cases format with
  | none =>
    refine ⟨x, by simpa using ha, ?_⟩
    cases x <;> rfl
  | some spec =>
    have hformat : Code.Maps Q locals [⟨spec.span.line, .format spec.kind⟩]
        fun v => (v.format spec.kind).map .str := by
      apply Code.Maps.instr
      intro offset next v stack
      simp only [Instr.step, Frame.mapTop_cons, bind, Except.bind, pure, Except.pure]
      cases v.format spec.kind <;> rfl
    refine ⟨_, ha.maps hformat, ?_⟩
    cases x with
    | error e => rfl
    | ok v =>
      simp only [Except.bind, Value.evalHole]
      cases v.format spec.kind <;> rfl

mutual

/-- The code of an expression pushes its value in the build. -/
theorem infer_pushes (hQ : Q.Consistent) (hs : c.scope.Agrees env locals) : (e : Expr) →
    ∀ {P P' : Pool} {t : Ty} {code : Code}, c.infer e P = ⟨.ok t, code, P'⟩ → P'.Within Q →
      code.Pushes Q locals (e.evalBy c.registry (c.build Q) c.options.overflowChecks env)
  | .literal l span, _, _, _, _, h, hin => literal_pushes hQ h hin
  | .name x, _, _, _, _, h, _ => name_pushes hs h
  | .member e field span, _, _, _, _, h, hin => by
    simp only [infer, Emit.bind_ok] at h
    obtain ⟨t, _, _, _, he, h, rfl⟩ := h
    have hin₁ := ((Emit.grows.member c t field span).within h).trans hin
    have hpushes := (infer_pushes hQ hs e he hin₁).maps (member_maps hQ h hin)
    rw [← kind_of_infer hs he] at hpushes
    exact hpushes
  | .call e method args span, _, _, _, _, h, hin => by
    refine fold_pushes hQ h hin fun hm => ?_
    simp only [Emit.bind_ok] at hm
    obtain ⟨t, _, _, _, he, hcall, rfl⟩ := hm
    obtain ⟨is, -, hrule, rfl, rfl⟩ := call_ok hcall
    exact (infer_pushes hQ hs e he hin).maps (Rule.method_maps hrule)
  | .unary op e span, _, _, _, _, h, hin => by
    refine fold_pushes hQ h hin fun hm => ?_
    simp only [Emit.bind_ok, Emit.ruling_ok] at hm
    obtain ⟨t, _, _, _, he, ⟨is, hrule, rfl, rfl⟩, rfl⟩ := hm
    have hunary : (Code.on span.line is).Maps Q locals _ := Rule.unary_maps hrule
    have hpushes := (infer_pushes hQ hs e he hin).maps hunary
    rw [← kind_of_infer hs he] at hpushes
    exact hpushes
  | .binary op l r span, _, _, _, _, h, hin => by
    by_cases hop : op = .coalesce
    · subst hop
      refine fold_pushes hQ h hin fun hm => ?_
      simp only [Emit.bind_ok, Emit.jumpOver_ok, Emit.instr_ok, Emit.lift_ok] at hm
      obtain ⟨a, _, _, _, hl, ⟨b, _, _, _, ⟨_, ⟨_, _, _, _, ⟨rfl, rfl⟩, hr, rfl⟩, hsize, rfl⟩,
        ⟨hrule, rfl, rfl⟩, rfl⟩, rfl⟩ := hm
      have hin₁ := ((c.grows_infer r).within hr).trans hin
      have hright := (infer_pushes hQ hs r hr hin).orElse span.line (by simpa using hsize)
      have hpushes := (infer_pushes hQ hs l hl hin₁).maps hright
      rw [List.append_nil]
      exact hpushes
    · rw [c.infer_binary l r span hop] at h
      rw [evalBy_binary l r span hop]
      refine fold_pushes hQ h hin fun hm => ?_
      simp only [Emit.bind_ok, Emit.ruling_ok] at hm
      obtain ⟨a, _, _, _, hl, ⟨b, _, _, _, hr, ⟨is, hrule, rfl, rfl⟩, rfl⟩, rfl⟩ := hm
      have hin₁ := ((c.grows_infer r).within hr).trans hin
      have hbinary : (Code.on span.line is).Maps2 Q locals _ := Rule.binary_maps2 hop hrule
      have hpushes := (infer_pushes hQ hs l hl hin₁).maps2 (infer_pushes hQ hs r hr hin) hbinary
      rw [← kind_of_infer hs hl, ← kind_of_infer hs hr] at hpushes
      exact hpushes
  | .ternary e t f span, _, _, _, _, h, hin => by
    refine fold_pushes hQ h hin fun hm => ?_
    simp only [Emit.bind_ok, Emit.jumpOver_ok, Emit.lift_ok] at hm
    obtain ⟨k, _, _, _, he, ⟨_, _, _, _, ⟨hcondition, rfl, rfl⟩, ⟨a, _, _, _, ⟨_, ht, hsize, rfl⟩,
      ⟨b, _, _, _, ⟨_, hf, hsize', rfl⟩, ⟨hrule, rfl, rfl⟩, rfl⟩, rfl⟩, rfl⟩, rfl⟩ := hm
    have hin₂ := ((c.grows_infer f).within hf).trans hin
    have hin₁ := ((c.grows_infer t).within ht).trans hin₂
    have hbranch := (infer_pushes hQ hs t ht hin₂).ifElse span.line
      (infer_pushes hQ hs f hf hin) hsize (by simpa using hsize')
    have hpushes := (infer_pushes hQ hs e he hin₁).maps hbranch
    rw [List.append_nil]
    exact hpushes
  | .interpolated parts span, _, _, _, _, h, hin => by
    refine fold_pushes hQ h hin fun hm => ?_
    simp only [Emit.bind_ok] at hm
    obtain ⟨q, _, P₁, _, hparts, hjoin, rfl⟩ := hm
    have hin₁ := ((Emit.grows.join q span).within hjoin).trans hin
    exact Pieces.interpolated_pushes hQ (inferSegments_collects hQ hs parts hparts hin₁) hjoin hin
  | .paren e span, _, _, _, _, h, hin => fold_pushes hQ h hin fun hm => infer_pushes hQ hs e hm hin

/-- The code of a segment pushes it as a piece, unless its text is kept back. -/
theorem inferSegment_collects (hQ : Q.Consistent) (hs : c.scope.Agrees env locals) :
    (s : Segment) → ∀ {p q : Pieces} {P P' : Pool} {code : Code},
      c.inferSegment p s P = ⟨.ok q, code, P'⟩ → P'.Within Q →
      code.Collects Q locals c.options.folds p q
        (s.evalBy c.registry (c.build Q) c.options.overflowChecks env)
  | .text _, _, _, _, _, _, h, hin => Pieces.addText_collects hQ h hin
  | .hole e format span, p, q, _, _, _, h, hin => by
    obtain ⟨t, c₁, P₁, c₂, P₂, he, hformat, h⟩ := hole_ok h
    have hin₂ := ((Emit.grows.format c t format).within hformat).trans hin
    obtain ⟨-, -, hc₂⟩ := format_ok hformat
    have hhole : e.foldedHole? (c.build Q).folds format =
      if c.options.folds then e.constant?.bind (Value.foldHole? format) else none := rfl
    simp only [Segment.evalBy, hhole]
    rcases h with ⟨s, hfold, rfl, rfl⟩ | ⟨hnone, p', c₀, hflush, rfl, rfl⟩
    · rw [hfold]
      have hfolds : c.options.folds = true := by
        cases hoff : c.options.folds with
        | true => rfl
        | false => simp [hoff] at hfold
      exact Code.Collects.keep hfolds rfl rfl rfl
    · rw [hnone]
      have hin₁ := ((c.grows_infer e).within he).trans hin₂
      obtain ⟨hflushed, hpending⟩ :
          Code.Collects Q locals c.options.folds p p' c₀ (.ok "") ∧ p'.pending = none :=
        Pieces.flush_collects hQ hflush hin₁
      obtain ⟨y, hy, hrender⟩ := hole_pushes (infer_pushes hQ hs e he hin₂) hc₂
      have hpushed : Code.Collects Q locals c.options.folds p'
          { p' with count := p'.count + 1, onlyText := false, span := c.holeSpan e format } _
          (y.map Value.render) := .push hy hpending rfl nofun hpending
      rw [hrender] at hpushed
      exact hflushed.append_empty hpushed

theorem inferSegments_collects (hQ : Q.Consistent) (hs : c.scope.Agrees env locals) :
    (segments : List Segment) → ∀ {p q : Pieces} {P P' : Pool} {code : Code},
      c.inferSegmentsOnto p [] segments P = ⟨.ok q, code, P'⟩ → P'.Within Q →
      code.Collects Q locals c.options.folds p q
        (Segment.evalAllBy c.registry (c.build Q) c.options.overflowChecks env segments)
  | [], _, _, _, _, _, h, _ => by
    rw [inferSegmentsOnto_nil, Emit.pure_ok] at h
    obtain ⟨rfl, rfl, rfl⟩ := h
    exact Code.Collects.nil
  | s :: rest, _, _, _, _, _, h, hin => by
    obtain ⟨p', _, _, _, hfirst, hrest, rfl⟩ := segments_ok h
    have hin₁ := ((c.grows_inferSegments p' rest).within hrest).trans hin
    exact (inferSegment_collects hQ hs s hfirst hin₁).append
      (inferSegments_collects hQ hs rest hrest hin)

end

end Context

end TypedTemplate
