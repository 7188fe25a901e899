/-
Templates that are not closed are reported once each.

Which templates are left open can be read off the tokens: a start opens one, and an end closes the
one that was opened last.  The lexer learns of it in two ways.  It may be in the text of a template
when the source ends, and it may be in the code of an interpolation, with one template or more to
return to.  Together these are the templates of its state: the one that is read and those of the
frames.

A step does to the templates of the state what its token does to the templates that are open, so
at the end the two are the same.  The end reports just those of the state, and no step reports any.
Each template begins behind those that are open already, so none is reported twice.
-/
import SourceView.Proofs.Script.Balance
import SourceView.Proofs.Script.Pieces
import Mathlib.Data.List.Perm.Basic

namespace SourceView

/-! ### What is reported -/

/-- Whether a cause is worded as that of a template literal without its end. -/
def Anomaly.isOpenTemplate (cause : Anomaly) : Bool :=
  cause.message == "Unclosed template literal: expected '\x60'"

/-- The offsets of the templates that are reported to have no end. -/
def Fault.openTemplates (faults : List Fault) : List Int :=
  (faults.filter (·.cause.isOpenTemplate)).map (·.start)

namespace Anomaly

theorem not_isOpenTemplate {cause : Anomaly} {first rest : String}
    (hmessage : cause.message = first ++ rest)
    (h : ¬first.toList <+: "Unclosed template literal: expected '\x60'".toList) :
    cause.isOpenTemplate = false := by
  rw [isOpenTemplate, beq_eq_false_iff_ne]
  intro heq
  rw [← heq, hmessage, String.toList_append] at h
  exact h (List.prefix_append _ _)

theorem not_isOpenTemplate_unclosedStartTag (name : String) :
    (unclosedStartTag name).isOpenTemplate = false :=
  not_isOpenTemplate (String.append_assoc ..) (by decide)

theorem not_isOpenTemplate_unclosedEndTag (name : String) :
    (unclosedEndTag name).isOpenTemplate = false :=
  not_isOpenTemplate (String.append_assoc ..) (by decide)

theorem not_isOpenTemplate_unclosedString (quote : Char) :
    (unclosedLiteral "string literal" quote).isOpenTemplate = false :=
  not_isOpenTemplate rfl (by decide)

theorem not_isOpenTemplate_unclosedValue (quote : Char) :
    (unclosedLiteral "attribute value" quote).isOpenTemplate = false :=
  not_isOpenTemplate rfl (by decide)

end Anomaly

theorem Fault.openTemplates_append (faults more : List Fault) :
    openTemplates (faults ++ more) = openTemplates faults ++ openTemplates more := by
  rw [openTemplates, List.filter_append, List.map_append]
  rfl

theorem Fault.openTemplates_eq_nil {faults : List Fault}
    (h : ∀ f ∈ faults, f.cause.isOpenTemplate = false) : openTemplates faults = [] := by
  rw [openTemplates, List.filter_eq_nil_iff.mpr fun f hf => by simp [h f hf], List.map_nil]

namespace Script

open Lexing Anomaly

/-! ### What tokens open -/

/-- The offsets of the templates that are open after a token of some kind, the last one first. -/
def follow (opened : List Int) (kind : TokenKind) (start : Int) : List Int :=
  match kind with
  | .templateStart => start :: opened
  | .templateEnd => opened.tail
  | _ => opened

/-- The offsets of the templates that are open after the tokens. -/
def followAll (opened : List Int) (tokens : List Token) : List Int :=
  tokens.foldl (fun opened t => follow opened t.kind t.start) opened

/-- The offsets of the starts of templates that no end is for; an end is for the last start that
has none. -/
def unended (tokens : List Token) : List Int :=
  followAll [] tokens

/-- Whether tokens of this kind start or end a template. -/
def bounds : TokenKind → Bool
  | .templateStart | .templateEnd => true
  | _ => false

theorem not_bounds_of_not_concerns {kind : TokenKind} (h : Mark.concerns kind = false) :
    bounds kind = false := by
  revert h
  cases kind <;> decide

theorem follow_of_not_bounds {kind : TokenKind} (h : bounds kind = false) (opened : List Int)
    (start : Int) : follow opened kind start = opened := by
  cases kind <;> first | rfl | exact absurd h (by decide)

/-- A structural run keeps the tokens that start and end templates. -/
theorem followAll_filter (opened : List Int) (tokens : List Token) :
    followAll opened (tokens.filter fun t => t.kind.isStructural) = followAll opened tokens := by
  induction tokens generalizing opened with
  | nil => rfl
  | cons t tokens ih =>
      cases ht : t.kind.isStructural with
      | true =>
          rw [List.filter_cons, if_pos ht]
          exact ih _
      | false =>
          have hplain : bounds t.kind = false := by
            revert ht
            cases t.kind <;> decide
          rw [List.filter_cons, ht, if_neg Bool.false_ne_true, ih]
          exact congrArg (followAll · tokens) (follow_of_not_bounds hplain opened t.start).symm

theorem countP_filter_structural (kind : TokenKind) (h : kind.isStructural = true)
    (tokens : List Token) :
    (tokens.filter fun t => t.kind.isStructural).countP (·.kind == kind)
      = tokens.countP (·.kind == kind) := by
  rw [List.countP_filter]
  refine List.countP_congr fun t _ => ?_
  simp only [Bool.and_eq_true, beq_iff_eq, and_iff_left_iff_imp]
  rintro rfl
  exact h

/-! ### The templates of a state -/

/-- The template whose text is read. -/
def Mode.templates : Mode → List Int
  | template start => [(start : Int)]
  | _ => []

/-- The template to return to. -/
def Frame.templates (frame : Frame) : List Int :=
  match frame.context with
  | .template => [(frame.start : Int)]
  | _ => []

/-- The offsets of the templates that a state stands in, the innermost first. -/
def LexState.templates (s : LexState) : List Int :=
  s.mode.templates ++ s.frames.flatMap Frame.templates

/-- The step does to the templates of the state what its token does to those that are open, has an
open template if the token ends one, and reports none. -/
structure Step.Follows (s : LexState) (pos : Nat) (step : Step) : Prop where
  templates : step.state.templates = follow s.templates step.lexeme.kind pos
  opened : step.lexeme.kind = .templateEnd → s.templates ≠ []
  silent : ∀ f ∈ step.faults, f.cause.isOpenTemplate = false

variable {s : LexState} {l : Lexeme} {mode : Mode} {faults : List Fault} {detail : Detail}
  {region : Region} {pos : Nat} {c : Char} {rest : List Char}

theorem LexState.templates_congr {s' : LexState} (hmode : s'.mode.templates = s.mode.templates)
    (hframes : s'.frames.flatMap Frame.templates = s.frames.flatMap Frame.templates) :
    s'.templates = s.templates := by
  rw [templates, templates, hmode, hframes]

/-- A token that neither starts nor ends a template. -/
theorem Step.Follows.of_plain {step : Step} (hl : bounds step.lexeme.kind = false)
    (hstate : step.state.templates = s.templates)
    (hsilent : ∀ f ∈ step.faults, f.cause.isOpenTemplate = false) : step.Follows s pos where
  templates := by rw [hstate, follow_of_not_bounds hl]
  opened h := absurd (h ▸ hl) (by decide)
  silent := hsilent

/-! ### Steps -/

theorem quotedLiteral_silent {what : String}
    (hwhat : ∀ quote, (unclosedLiteral what quote).isOpenTemplate = false) (kind : TokenKind)
    (style : String) (multiline : Bool) (quote : Char) (pos : Nat) (rest : List Char) :
    ∀ f ∈ (quotedLiteral kind style what multiline quote pos rest).2,
      f.cause.isOpenTemplate = false := by
  unfold quotedLiteral
  simp only
  split
  · simp
  · simpa using hwhat quote

theorem comment_silent (pos : Nat) (text : List Char) :
    ∀ f ∈ (delimited .comment "comment" "comment" 2 ['*', '/'] pos text).2,
      f.cause.isOpenTemplate = false := by
  unfold delimited
  split
  · simp
  · have hcomment : (unclosed "comment" (String.ofList ['*', '/'])).isOpenTemplate = false := by
      decide
    simpa using hcomment

namespace Step.Follows

/-- A step that finds no fault, with a token that neither starts nor ends a template. -/
theorem quiet {s' : LexState} (hl : bounds l.kind = false) (hstate : s'.templates = s.templates) :
    Step.Follows s pos { lexeme := l, state := s' } :=
  .of_plain hl hstate (by simp)

/-- A literal in quotes. -/
theorem quoted {what : String}
    (hwhat : ∀ quote, (unclosedLiteral what quote).isOpenTemplate = false) {kind : TokenKind}
    (hkind : Mark.concerns kind = false) (style : String) (multiline : Bool) :
    Step.Follows s pos
      { lexeme := (quotedLiteral kind style what multiline c pos rest).1
        state := s
        faults := (quotedLiteral kind style what multiline c pos rest).2 } :=
  .of_plain (not_bounds_of_not_concerns (quotedLiteral_concerns hkind ..)) rfl
    (quotedLiteral_silent hwhat kind style multiline c pos rest)

/-- An opening brace of markup. -/
theorem enter (hmode : s.mode.templates = []) (hl : bounds l.kind = false) {context : Context}
    (hcontext : ∀ depth start, Frame.templates ⟨context, depth, start⟩ = []) (start : Nat) :
    Step.Follows s pos
      { lexeme := l
        state := { s with mode := .code, frames := ⟨context, s.depth, start⟩ :: s.frames } } := by
  refine quiet hl (LexState.templates_congr hmode.symm ?_)
  rw [List.flatMap_cons, hcontext, List.nil_append]

end Step.Follows

theorem scanSlash_follows (text : List Char) : (scanSlash s pos text).Follows s pos := by
  simp only [scanSlash]
  split
  · exact .quiet rfl rfl
  split
  · exact .of_plain (by rw [delimited_kind]; rfl) rfl (comment_silent pos text)
  split
  · rename_i l hl
    split at hl
    · obtain ⟨n, -, rfl⟩ := Option.map_eq_some_iff.mp hl
      exact .quiet rfl rfl
    · exact absurd hl (by simp)
  · exact .quiet (not_bounds_of_not_concerns (operator_concerns text)) rfl

/-- A closing brace may go on with the text of the innermost template, which stays open. -/
theorem closeBrace_follows (hmode : s.mode.templates = []) : (closeBrace s).Follows s pos := by
  unfold closeBrace
  simp only
  split
  · exact .quiet rfl rfl
  · rename_i frame frames hframes
    have hstate {mode : Mode} (h : mode.templates = frame.templates) :
        LexState.templates { s with frames, mode } = s.templates := by
      rw [LexState.templates, LexState.templates, hmode, hframes, List.flatMap_cons, h]
      rfl
    split
    · obtain ⟨context, depth, start⟩ := frame
      cases context <;> exact .quiet rfl (hstate rfl)
    · exact .quiet rfl rfl

theorem scanCode_follows (hmode : s.mode.templates = []) :
    (scanCode detail s pos c rest).Follows s pos := by
  have hstep := scanCode_step detail s pos c rest
  generalize scanCode detail s pos c rest = step at hstep
  cases hstep with
  | space hspace => exact .quiet (not_bounds_of_not_concerns (whitespace?_concerns hspace)) rfl
  | slash => exact scanSlash_follows (c :: rest)
  | quoted => exact .quoted not_isOpenTemplate_unclosedString rfl ..
  | template =>
      refine ⟨?_, by simp, by simp⟩
      show _ = (pos : Int) :: (s.mode.templates ++ _)
      rw [hmode]
      rfl
  | openBrace => exact .quiet rfl rfl
  | closeBrace => exact closeBrace_follows hmode
  | bracket hkind => exact .quiet (not_bounds_of_not_concerns (bracket?_concerns hkind)) rfl
  | tag => exact .quiet rfl (LexState.templates_congr hmode.symm rfl)
  | number | punctuation => exact .quiet rfl rfl
  | word | privateWord => exact .quiet (not_bounds_of_not_concerns (word_concerns ..)) rfl
  | operator => exact .quiet (not_bounds_of_not_concerns (operator_concerns _)) rfl

theorem scanTemplate_follows {start : Nat} (hmode : s.mode = .template start) :
    (scanTemplate s start c rest).Follows s pos := by
  have htemplates : s.templates = (start : Int) :: s.frames.flatMap Frame.templates := by
    rw [LexState.templates, hmode]
    rfl
  unfold scanTemplate
  split
  · exact ⟨by rw [htemplates]; rfl, by simp [htemplates], by simp⟩
  split
  · exact .quiet rfl htemplates.symm
  · exact .quiet rfl rfl

theorem Region.templates_resume (region : Region) : region.resume.templates = [] := by
  unfold Region.resume
  split <;> rfl

theorem scanAttributes_follows (hmode : s.mode.templates = []) :
    (scanAttributes s region pos c rest).Follows s pos := by
  have hstate {mode : Mode} (h : mode.templates = []) :
      LexState.templates { s with mode } = s.templates :=
    LexState.templates_congr (h.trans hmode.symm) rfl
  unfold scanAttributes
  split
  · rename_i l hl
    exact .quiet (not_bounds_of_not_concerns (whitespace?_concerns hl)) rfl
  split
  · exact .quiet rfl (hstate rfl)
  split
  · exact .quiet rfl (hstate (Region.templates_resume _))
  split
  · exact .enter hmode rfl (fun _ _ => rfl) pos
  split
  · exact .quoted not_isOpenTemplate_unclosedValue rfl ..
  split <;> exact .quiet rfl rfl

theorem scanChildren_follows (hmode : s.mode.templates = []) :
    (scanChildren s region pos c rest).Follows s pos := by
  have hstate {mode : Mode} (h : mode.templates = []) :
      LexState.templates { s with mode } = s.templates :=
    LexState.templates_congr (h.trans hmode.symm) rfl
  unfold scanChildren
  split
  · exact .enter hmode rfl (fun _ _ => rfl) pos
  split
  · exact .quiet rfl (hstate rfl)
  split
  · exact .quiet rfl (hstate rfl)
  split
  · rename_i l hl
    exact .quiet (not_bounds_of_not_concerns (whitespace?_concerns hl)) rfl
  · exact .quiet rfl rfl

theorem scanEndTag_follows {name : String} {start : Nat} (hmode : s.mode.templates = []) :
    (scanEndTag detail s region name start pos c rest).Follows s pos := by
  have hresume := region.templates_resume
  have hstate : LexState.templates { s with mode := region.resume } = s.templates :=
    LexState.templates_congr (hresume.trans hmode.symm) rfl
  have hresumed : (scanResumed detail s region pos c rest).Follows s pos := by
    have hnext :
        (scanResumed detail s region pos c rest).Follows { s with mode := region.resume } pos := by
      unfold scanResumed
      simp only
      split
      · exact scanCode_follows hresume
      · exact scanChildren_follows hresume
    exact ⟨hstate ▸ hnext.templates, hstate ▸ hnext.opened, hnext.silent⟩
  unfold scanEndTag
  split
  · exact .quiet rfl hstate
  split
  · rename_i l hl
    exact .quiet (not_bounds_of_not_concerns (whitespace?_concerns hl)) rfl
  · refine ⟨hresumed.templates, hresumed.opened, ?_⟩
    rw [List.forall_mem_cons]
    exact ⟨not_isOpenTemplate_unclosedEndTag name, hresumed.silent⟩

theorem LexState.templates_remember (s : LexState) (kind : TokenKind) (piece : List Char) :
    (s.remember kind piece).templates = s.templates := by
  unfold remember
  split <;> rfl

/-- A look names one piece, and does to the templates of the state what its token does to those
that are open. -/
theorem scan_follows (detail : Detail) (s : LexState) (pos : Nat) (c : Char) (rest : List Char) :
    ∃ l, (scan detail s pos (c :: rest)).lexemes = [l] ∧ 0 < l.length
      ∧ (scan detail s pos (c :: rest)).state.templates = follow s.templates l.kind pos
      ∧ (l.kind = .templateEnd → s.templates ≠ [])
      ∧ ∀ f ∈ (scan detail s pos (c :: rest)).faults, f.cause.isOpenTemplate = false := by
  obtain ⟨l, hl, hlength⟩ := scan_single detail s pos c rest
  refine ⟨l, hl, hlength, ?_⟩
  have hlook {step : Step} (h : step.Follows s pos) (hl : [step.lexeme] = [l])
      (piece : List Char) :
      (step.state.remember step.lexeme.kind piece).templates = follow s.templates l.kind pos
        ∧ (l.kind = .templateEnd → s.templates ≠ [])
        ∧ ∀ f ∈ step.faults, f.cause.isOpenTemplate = false := by
    obtain rfl : step.lexeme = l := List.singleton_inj.mp hl
    exact ⟨(LexState.templates_remember ..).trans h.templates, h.opened, h.silent⟩
  unfold scan at hl ⊢
  refine hlook ?_ hl _
  cases hmode : s.mode with
  | code => exact scanCode_follows (by rw [hmode]; rfl)
  | template start => exact scanTemplate_follows hmode
  | attributes region => exact scanAttributes_follows (by rw [hmode]; rfl)
  | children region => exact scanChildren_follows (by rw [hmode]; rfl)
  | endTag region name start => exact scanEndTag_follows (by rw [hmode]; rfl)

/-! ### Runs -/

/-- The end reports each template of the state once. -/
theorem openTemplates_finish (s : LexState) (pos : Nat) :
    (Fault.openTemplates (finish s pos)).Perm s.templates := by
  have hframes (frames : List Frame) : Fault.openTemplates (frames.filterMap fun frame =>
      match frame.context with
      | .template => some ⟨.unclosedTemplate, frame.start, pos⟩
      | _ => none) = frames.flatMap Frame.templates := by
    induction frames with
    | nil => rfl
    | cons frame frames ih =>
        obtain ⟨context, depth, start⟩ := frame
        cases context with
        | template =>
            rw [List.flatMap_cons, ← ih]
            rfl
        | attributes region | children region => exact ih
  rw [finish, Fault.openTemplates_append]
  refine List.Perm.append (.of_eq ?_)
    ((List.Perm.of_eq (hframes s.frames.reverse)).trans ((List.reverse_perm _).flatMap_right _))
  cases s.mode with
  | code | children region => rfl
  | template start => rfl
  | attributes region =>
      exact Fault.openTemplates_eq_nil (by simpa using not_isOpenTemplate_unclosedStartTag _)
  | endTag region name start =>
      exact Fault.openTemplates_eq_nil (by simpa using not_isOpenTemplate_unclosedEndTag _)

/-- The offsets are different, and lie before `pos`. -/
structure Fresh (pos : Nat) (opened : List Int) : Prop where
  nodup : opened.Nodup
  lt : ∀ start ∈ opened, start < pos

theorem Fresh.follow {opened : List Int} (h : Fresh pos opened) (kind : TokenKind) {next : Nat}
    (hnext : pos < next) : Fresh next (follow opened kind pos) := by
  have hold : Fresh next opened := by
    refine ⟨h.nodup, fun start hstart => ?_⟩
    have hlt := h.lt start hstart
    omega
  unfold Script.follow
  split
  · refine ⟨List.nodup_cons.mpr ⟨fun hmem => Int.lt_irrefl _ (h.lt _ hmem), h.nodup⟩, ?_⟩
    rw [List.forall_mem_cons]
    exact ⟨Int.ofNat_lt.mpr hnext, hold.lt⟩
  · exact ⟨hold.nodup.tail, fun start hstart => hold.lt start (List.mem_of_mem_tail hstart)⟩
  · exact hold

/-- What a run reports, over the templates that were open before. -/
structure Reports (opened : List Int) (lexing : Lexing) : Prop where
  perm : (Fault.openTemplates lexing.faults).Perm (followAll opened lexing.tokens)
  nodup : (followAll opened lexing.tokens).Nodup
  count : (followAll opened lexing.tokens).length + lexing.tokens.countP (·.kind == .templateEnd)
    = opened.length + lexing.tokens.countP (·.kind == .templateStart)

/-- A token in front counts as what it does to the open templates. -/
theorem Reports.cons {opened : List Int} {lexing : Lexing} {t : Token} {faults : List Fault}
    (h : Reports (follow opened t.kind t.start) lexing)
    (hopened : t.kind = .templateEnd → opened ≠ [])
    (hsilent : ∀ f ∈ faults, f.cause.isOpenTemplate = false) :
    Reports opened ⟨[t] ++ lexing.tokens, faults ++ lexing.faults⟩ where
  perm := by
    rw [Fault.openTemplates_append, Fault.openTemplates_eq_nil hsilent]
    exact h.perm
  nodup := h.nodup
  count := by
    have hlength : (follow opened t.kind t.start).length + [t].countP (·.kind == .templateEnd)
        = opened.length + [t].countP (·.kind == .templateStart) := by
      unfold follow
      cases hkind : t.kind with
      | templateEnd =>
          have hpos := List.length_pos_iff.mpr (hopened hkind)
          simp [hkind, Nat.sub_add_cancel hpos]
      | _ => simp [hkind]
    have hcount := h.count
    rw [List.countP_append, List.countP_append]
    show (followAll (follow opened t.kind t.start) lexing.tokens).length + _ = _
    omega

theorem run_reports (detail : Detail) (s : LexState) (pos : Nat) (text : List Char)
    (hs : Fresh pos s.templates) : Reports s.templates ((scanner detail).run 0 s pos text) := by
  induction s, pos, text using (scanner detail).run_induction with
  | done s pos => exact ⟨openTemplates_finish s pos, hs.nodup, rfl⟩
  | step s pos text htext rest ih =>
      obtain ⟨c, cs, rfl⟩ := List.exists_cons_of_ne_nil htext
      obtain ⟨l, hl, hlength, htemplates, hopened, hsilent⟩ := scan_follows detail s pos c cs
      have hnext : Fresh (pos + ((c :: cs).take
          (Lexeme.width ((scanner detail).scan s pos (c :: cs)).pieces)).length)
          ((scanner detail).scan s pos (c :: cs)).state.templates := by
        have hpos := ((scanner detail).scan s pos (c :: cs)).width_pieces_pos
        refine (congrArg _ htemplates).mpr (hs.follow l.kind ?_)
        rw [List.length_take, List.length_cons]
        omega
      have hrest := ih hnext
      show Reports s.templates
        ⟨Lexeme.cut pos (c :: cs) (scan detail s pos (c :: cs)).pieces ++ rest.tokens, _⟩
      rw [Scan.cut_single hl hlength]
      exact Reports.cons (htemplates ▸ hrest) hopened hsilent

theorem lex_reports (detail : Detail) (pos : Nat) (text : List Char) :
    Reports [] (lex detail pos text) := by
  have h := run_reports detail {} pos text
    ⟨List.nodup_nil, by simp [LexState.templates, Mode.templates]⟩
  cases detail with
  | rich => exact h
  | structural =>
      obtain ⟨hperm, hnodup, hcount⟩ := h
      rw [← followAll_filter] at hperm hnodup hcount
      rw [← countP_filter_structural .templateEnd rfl,
        ← countP_filter_structural .templateStart rfl] at hcount
      exact ⟨hperm, hnodup, hcount⟩

end Script

/-- **Each template without its end is reported once.**  The offsets that a run over a script
reports are those of the template starts that no end is for, and all different; so there are as
many reports as there are more starts than ends. -/
theorem Language.script_templates_reported (detail : Detail) (embed : Bool) (source : List Char)
    (start : Nat) (stop : Option Nat) :
    let lexing := script.lex detail embed source start stop
    let reported := Fault.openTemplates lexing.faults
    reported.length + lexing.tokens.countP (·.kind == .templateEnd)
        = lexing.tokens.countP (·.kind == .templateStart)
      ∧ reported.Nodup ∧ reported.Perm (Script.unended lexing.tokens) := by
  intro lexing reported
  have h := Script.lex_reports detail start (boundedText source start stop)
  rw [← lex_script detail embed] at h
  have hcount := h.count
  rw [← h.perm.length_eq, List.length_nil, Nat.zero_add] at hcount
  exact ⟨hcount, h.perm.nodup_iff.mpr h.nodup, h.perm⟩

end SourceView
