/-
How templates and braces nest in the tokens of a script.

The lexer counts open braces, and keeps a frame with that count for each place where code was
entered from inside a template or embedded markup.  A machine with a real stack reads the
tokens instead.  It has a mark for each template, each interpolation and each brace, and it
takes a closer only when the mark of it is on top.

The stack can be read off the state of the lexer: of the braces that were opened since the
innermost frame there are as many as the count has grown, then comes what that frame was
entered from, and so on outward.  A step of the lexer does to this stack just what the machine
does at the token of the step, so the machine reads the tokens of every script to their end.
-/
import SourceView.Proofs.Lexing.Runs
import SourceView.Proofs.Lexing.Kept
import SourceView.Proofs.Lexing.EndTags
import SourceView.Proofs.Script.Detail
import Mathlib.Data.List.Induction

namespace SourceView.Script

open Lexing

/-! ### The machine -/

/-- What is open: a template literal, an interpolation in one, or a brace. -/
inductive Mark where
  | template | interpolation | brace
deriving DecidableEq

namespace Mark

/-- What a token of a kind does to the marks of what is open, the innermost first, if it may come
there.  A closing brace may also come where nothing is open. -/
def read (stack : List Mark) (kind : TokenKind) : Option (List Mark) :=
  match kind, stack with
  | .templateStart, stack => some (template :: stack)
  | .templateExprOpen, template :: stack => some (interpolation :: template :: stack)
  | .templateExprClose, interpolation :: stack => some stack
  | .templateEnd, template :: stack => some stack
  | .blockOpen, stack => some (brace :: stack)
  | .blockClose, brace :: stack => some stack
  | .blockClose, [] => some []
  | .templateExprOpen, _ | .templateExprClose, _ | .templateEnd, _ | .blockClose, _ => none
  | _, stack => some stack

/-- The marks after all tokens of the given kinds, if each may come where it does. -/
def readAll (stack : List Mark) (kinds : List TokenKind) : Option (List Mark) :=
  kinds.foldlM read stack

/-- Whether tokens of this kind open or close something that is marked. -/
def concerns : TokenKind → Bool
  | .templateStart | .templateExprOpen | .templateExprClose | .templateEnd | .blockOpen
  | .blockClose => true
  | _ => false

theorem read_of_not_concerns {kind : TokenKind} (h : concerns kind = false) (stack : List Mark) :
    read stack kind = some stack := by
  cases kind <;> first | rfl | exact absurd h (by decide)

theorem readAll_cons (stack : List Mark) (kind : TokenKind) (kinds : List TokenKind) :
    readAll stack (kind :: kinds) = (read stack kind).bind fun next => readAll next kinds := rfl

theorem readAll_singleton (stack : List Mark) (kind : TokenKind) :
    readAll stack [kind] = read stack kind :=
  Option.bind_fun_some _

theorem readAll_append (stack : List Mark) (kinds others : List TokenKind) :
    readAll stack (kinds ++ others)
      = (readAll stack kinds).bind fun next => readAll next others := by
  rw [readAll, List.foldlM_append]
  rfl

/-- Tokens that open and close nothing may be left out. -/
theorem readAll_filter {keep : TokenKind → Bool}
    (hkeep : ∀ kind, concerns kind = true → keep kind = true) (stack : List Mark)
    (kinds : List TokenKind) : readAll stack (kinds.filter keep) = readAll stack kinds := by
  induction kinds generalizing stack with
  | nil => rfl
  | cons kind kinds ih =>
      rw [readAll_cons]
      by_cases hkind : keep kind = true
      · rw [List.filter_cons_of_pos hkind, readAll_cons]
        exact congrArg _ (funext fun next => ih next)
      · have hplain : concerns kind = false := Bool.eq_false_iff.mpr fun h => hkind (hkeep kind h)
        rw [List.filter_cons_of_neg hkind, read_of_not_concerns hplain, ih]
        rfl

/-! ### Interpolations -/

/-- A token takes the top mark off, puts one on, or does neither. -/
theorem read_cases {stack next : List Mark} {kind : TokenKind} (h : read stack kind = some next) :
    stack = next ∨ (∃ mark, stack = mark :: next)
      ∨ ∃ mark, next = mark :: stack ∧ (mark = interpolation → kind = .templateExprOpen) := by
  unfold read at h
  split at h
  case h_1 | h_2 | h_5 => exact .inr (.inr ⟨_, (Option.some.inj h).symm, by simp⟩)
  case h_3 | h_4 | h_6 => exact .inr (.inl ⟨_, congrArg _ (Option.some.inj h)⟩)
  all_goals simp_all

/-- What a token does over an open mark depends on no mark below that. -/
theorem read_over {above next below : List Mark} {kind : TokenKind} (habove : above ≠ [])
    (h : read (above ++ below) kind = some (next ++ below)) : read above kind = some next := by
  have hread : read (above ++ below) kind = (read above kind).map (· ++ below) := by
    obtain ⟨mark, marks, rfl⟩ := List.exists_cons_of_ne_nil habove
    cases kind <;> cases mark <;> rfl
  obtain ⟨after, hafter, heq⟩ := Option.map_eq_some_iff.mp (hread ▸ h)
  rw [hafter, List.append_cancel_right heq]

/-- Over an open mark every brace that closes was opened. -/
theorem read_braces {stack next : List Mark} {kind : TokenKind} (hstack : stack ≠ [])
    (h : read stack kind = some next) :
    stack.count brace + [kind].count .blockOpen = next.count brace + [kind].count .blockClose := by
  obtain ⟨mark, marks, rfl⟩ := List.exists_cons_of_ne_nil hstack
  cases kind <;> cases mark <;> simp_all [read] <;> simp [← h]

/-- The tokens come over an interpolation, close all but what is marked by `above`, and leave the
interpolation open. -/
structure Leaves (above : List Mark) (kinds : List TokenKind) : Prop where
  reads : readAll [interpolation] kinds = some (above ++ [interpolation])
  braces : kinds.count .blockOpen = above.count brace + kinds.count .blockClose

theorem Leaves.snoc {lower above below : List Mark} {kinds : List TokenKind} {kind : TokenKind}
    (h : Leaves lower kinds)
    (hkind : read (lower ++ interpolation :: below) kind = some (above ++ interpolation :: below)) :
    Leaves above (kinds ++ [kind]) := by
  have hread : read (lower ++ [interpolation]) kind = some (above ++ [interpolation]) :=
    read_over (by simp) (by simpa using hkind)
  have hbraces := read_braces (by simp) hread
  refine ⟨?_, ?_⟩
  · rw [readAll_append, h.reads, Option.bind_some, readAll_singleton, hread]
  · have hcount := h.braces
    have hmark : [interpolation].count brace = 0 := rfl
    rw [List.count_append, List.count_append, hmark] at hbraces
    rw [List.count_append, List.count_append]
    omega

/-- An interpolation that is open was opened, and what came since was read over it. -/
theorem exists_open {kinds : List TokenKind} {above below : List Mark}
    (h : readAll [] kinds = some (above ++ interpolation :: below)) :
    ∃ outer inner, kinds = outer ++ .templateExprOpen :: inner ∧ Leaves above inner := by
  induction kinds using List.reverseRecOn generalizing above with
  | nil => exact absurd (Option.some.inj h).symm (by simp)
  | append_singleton kinds kind ih =>
      rw [readAll_append] at h
      obtain ⟨stack, hkinds, hkind⟩ := Option.bind_eq_some_iff.mp h
      rw [readAll_singleton] at hkind
      -- where it was open before, the token comes over it too
      have hsince {lower : List Mark} (hlower : stack = lower ++ interpolation :: below) :
          ∃ outer inner, kinds ++ [kind] = outer ++ .templateExprOpen :: inner
            ∧ Leaves above inner := by
        obtain ⟨outer, inner, rfl, hinner⟩ := ih (hlower ▸ hkinds)
        exact ⟨outer, inner ++ [kind], by simp, hinner.snoc (hlower ▸ hkind)⟩
      obtain hsame | ⟨mark, hpop⟩ | ⟨mark, hpush, hopen⟩ := read_cases hkind
      · exact hsince hsame
      · exact @hsince (mark :: above) hpop
      · cases above with
        | nil =>
            rw [hopen (List.cons.inj hpush).1.symm]
            exact ⟨kinds, [], rfl, rfl, rfl⟩
        | cons top above => exact hsince (List.cons.inj hpush).2.symm

/-- Where an interpolation closes, the braces behind its opening are balanced. -/
theorem exists_balanced {before after : List TokenKind} {stack : List Mark}
    (h : readAll [] (before ++ .templateExprClose :: after) = some stack) :
    ∃ outer inner, before = outer ++ .templateExprOpen :: inner ∧ Leaves [] inner := by
  rw [readAll_append] at h
  obtain ⟨marks, hbefore, hafter⟩ := Option.bind_eq_some_iff.mp h
  rw [readAll_cons] at hafter
  obtain ⟨next, hclose, -⟩ := Option.bind_eq_some_iff.mp hafter
  cases marks with
  | nil => exact absurd hclose (by simp [read])
  | cons mark marks =>
      cases mark with
      | interpolation => exact exists_open hbefore
      | template | brace => exact absurd hclose (by simp [read])

end Mark

/-! ### The stack of a state -/

/-- The marks of what code was entered from. -/
def Context.marks : Context → List Mark
  | template => [.interpolation, .template]
  | attributes _ | children _ => [.brace]

/-- The marks of what code stands in, where `depth` braces are open. -/
def marksOf (depth : Nat) : List Frame → List Mark
  | [] => List.replicate depth .brace
  | frame :: frames =>
    List.replicate (depth - frame.depth) .brace
      ++ (frame.context.marks ++ marksOf frame.depth frames)

/-- The marks of all that is open in a state. -/
def LexState.marks (s : LexState) : List Mark :=
  match s.mode with
  | .template _ => .template :: marksOf s.depth s.frames
  | _ => marksOf s.depth s.frames

/-- Frames further out were entered with no more braces open. -/
def Nest (depth : Nat) : List Frame → Prop
  | [] => True
  | frame :: frames => frame.depth ≤ depth ∧ Nest frame.depth frames

/-- The step leaves a state that nests, and the machine comes from the marks of `s` to the marks
of that state with the token of the step. -/
structure Step.Balanced (s : LexState) (step : Step) : Prop where
  nest : Nest step.state.depth step.state.frames
  reads : Mark.read s.marks step.lexeme.kind = some step.state.marks

/-- Whether a template is read. -/
def Mode.isTemplate : Mode → Bool
  | .template _ => true
  | _ => false

theorem LexState.marks_of_not_template {s : LexState} (h : s.mode.isTemplate = false) :
    s.marks = marksOf s.depth s.frames := by
  unfold marks
  split
  · rename_i hmode
    rw [hmode] at h
    exact absurd h (by simp [Mode.isTemplate])
  · rfl

theorem marksOf_succ {depth : Nat} {frames : List Frame} (h : Nest depth frames) :
    marksOf (depth + 1) frames = .brace :: marksOf depth frames := by
  cases frames with
  | nil => rfl
  | cons frame frames =>
      rw [marksOf, marksOf, Nat.succ_sub h.1, List.replicate_succ, List.cons_append]

theorem Nest.succ {depth : Nat} {frames : List Frame} (h : Nest depth frames) :
    Nest (depth + 1) frames := by
  cases frames with
  | nil => trivial
  | cons frame frames => exact ⟨Nat.le_succ_of_le h.1, h.2⟩

variable {s : LexState} {l : Lexeme} {mode : Mode} {faults : List Fault} {detail : Detail}
  {region : Region} {pos : Nat} {c : Char} {rest : List Char}

/-- A token that opens and closes nothing, and leaves templates alone. -/
theorem Step.Balanced.of_plain (h : Nest s.depth s.frames) (hl : Mark.concerns l.kind = false)
    (hmode : s.mode.isTemplate = false) (hmode' : mode.isTemplate = false) :
    Step.Balanced s { lexeme := l, state := { s with mode }, faults } where
  nest := h
  reads := by
    rw [Mark.read_of_not_concerns hl, LexState.marks_of_not_template hmode,
      LexState.marks_of_not_template hmode']

/-- An opening brace of markup, behind which code is read until the count is back. -/
theorem Step.Balanced.enter (h : Nest s.depth s.frames) (hmode : s.mode.isTemplate = false)
    (hl : l.kind = .blockOpen) {context : Context} (hcontext : context.marks = [.brace])
    (start : Nat) :
    Step.Balanced s { lexeme := l
                      state := { s with mode := .code
                                        frames := ⟨context, s.depth, start⟩ :: s.frames } } where
  nest := ⟨Nat.le_refl _, h⟩
  reads := by
    rw [LexState.marks_of_not_template hmode, LexState.marks_of_not_template rfl, hl]
    simp only [marksOf, hcontext, Nat.sub_self, List.replicate_zero, List.nil_append,
      List.singleton_append]
    rfl

/-! ### Steps over code -/

theorem whitespace?_concerns {text : List Char} (h : whitespace? text = some l) :
    Mark.concerns l.kind = false := by
  have hkind := (whitespace?_trivia h).1
  revert hkind
  cases l.kind <;> decide

theorem quotedLiteral_concerns {kind : TokenKind} (h : Mark.concerns kind = false)
    (style what : String) (multiline : Bool) (quote : Char) (pos : Nat) (rest : List Char) :
    Mark.concerns (quotedLiteral kind style what multiline quote pos rest).1.kind = false := by
  unfold quotedLiteral
  simp only
  split
  · exact h
  · rfl

theorem word_concerns (detail : Detail) (s : LexState) (first : Nat) (text : List Char) :
    Mark.concerns (word detail s first text).kind = false := by
  have hword := word_isWord detail s first text
  revert hword
  cases (word detail s first text).kind <;> decide

theorem operator_concerns (text : List Char) : Mark.concerns (operator text).kind = false := by
  unfold operator
  split <;> rfl

theorem bracket?_concerns {kind : TokenKind} (h : bracket? c = some kind) :
    Mark.concerns kind = false := by
  unfold bracket? at h
  grind [Mark.concerns]

theorem scanSlash_balanced (hs : Nest s.depth s.frames) (hmode : s.mode.isTemplate = false)
    (text : List Char) : (scanSlash s pos text).Balanced s := by
  simp only [scanSlash]
  split
  · exact .of_plain hs rfl hmode hmode
  split
  · exact .of_plain hs (by rw [delimited_kind]; rfl) hmode hmode
  split
  · rename_i l hl
    split at hl
    · obtain ⟨n, -, rfl⟩ := Option.map_eq_some_iff.mp hl
      exact .of_plain hs rfl hmode hmode
    · exact absurd hl (by simp)
  · exact .of_plain hs (operator_concerns text) hmode hmode

/-- A closing brace takes off the mark on top, whatever that is a mark of. -/
theorem closeBrace_balanced (hs : Nest s.depth s.frames) (hmode : s.mode.isTemplate = false) :
    (closeBrace s).Balanced s := by
  have hmarks := LexState.marks_of_not_template hmode
  obtain ⟨mode, depth, frames, lastChar, lastWord, afterMember⟩ := s
  simp only at hs hmode hmarks
  unfold closeBrace
  cases frames with
  | nil =>
      refine ⟨trivial, ?_⟩
      rw [hmarks, LexState.marks_of_not_template hmode]
      cases depth <;> rfl
  | cons frame frames =>
      obtain ⟨context, entered, start⟩ := frame
      obtain ⟨hle, hframes⟩ := hs
      simp only at hle hframes ⊢
      by_cases hdepth : entered = depth
      · -- no brace of this code is open, so the mark on top is that of what it was entered from
        subst hdepth
        rw [if_pos rfl]
        simp only [marksOf, Nat.sub_self, List.replicate_zero, List.nil_append] at hmarks
        cases context <;> exact ⟨hframes, by rw [hmarks]; rfl⟩
      · rw [if_neg hdepth]
        obtain ⟨inner, rfl⟩ : ∃ inner, depth = inner + 1 := ⟨depth - 1, by omega⟩
        have hentered : entered ≤ inner := by omega
        have hnest : Nest inner (⟨context, entered, start⟩ :: frames) := ⟨hentered, hframes⟩
        refine ⟨hnest, ?_⟩
        rw [hmarks, marksOf_succ hnest, LexState.marks_of_not_template hmode]
        rfl

theorem scanCode_balanced (hs : Nest s.depth s.frames) (hmode : s.mode.isTemplate = false) :
    (scanCode detail s pos c rest).Balanced s := by
  have hstep := scanCode_step detail s pos c rest
  generalize scanCode detail s pos c rest = step at hstep
  cases hstep with
  | space hspace => exact .of_plain hs (whitespace?_concerns hspace) hmode hmode
  | slash => exact scanSlash_balanced hs hmode (c :: rest)
  | quoted => exact .of_plain hs (quotedLiteral_concerns rfl ..) hmode hmode
  | template => exact ⟨hs, by rw [LexState.marks_of_not_template hmode]; rfl⟩
  | openBrace =>
      have hmarks : LexState.marks { s with depth := s.depth + 1 }
          = .brace :: marksOf s.depth s.frames :=
        (@LexState.marks_of_not_template { s with depth := s.depth + 1 } hmode).trans
          (marksOf_succ hs)
      exact ⟨hs.succ, by rw [LexState.marks_of_not_template hmode, hmarks]; rfl⟩
  | closeBrace => exact closeBrace_balanced hs hmode
  | bracket hkind => exact .of_plain hs (bracket?_concerns hkind) hmode hmode
  | tag => exact .of_plain hs rfl hmode rfl
  | number | punctuation => exact .of_plain hs rfl hmode hmode
  | word | privateWord => exact .of_plain hs (word_concerns ..) hmode hmode
  | operator => exact .of_plain hs (operator_concerns _) hmode hmode

/-! ### Other steps -/

theorem scanTemplate_balanced (hs : Nest s.depth s.frames) {start : Nat}
    (hmode : s.mode = .template start) : (scanTemplate s start c rest).Balanced s := by
  have hmarks : s.marks = .template :: marksOf s.depth s.frames := by
    rw [LexState.marks, hmode]
  unfold scanTemplate
  split
  · exact ⟨hs, by rw [hmarks]; rfl⟩
  split
  · refine ⟨⟨Nat.le_refl _, hs⟩, ?_⟩
    rw [hmarks, LexState.marks_of_not_template rfl]
    simp only [marksOf, Nat.sub_self, List.replicate_zero, List.nil_append]
    rfl
  · exact ⟨hs, rfl⟩

theorem Region.resume_not_template (region : Region) : region.resume.isTemplate = false := by
  unfold Region.resume
  split <;> rfl

theorem scanAttributes_balanced (hs : Nest s.depth s.frames) (hmode : s.mode.isTemplate = false) :
    (scanAttributes s region pos c rest).Balanced s := by
  unfold scanAttributes
  split
  · rename_i l hl
    exact .of_plain hs (whitespace?_concerns hl) hmode hmode
  split
  · exact .of_plain hs rfl hmode rfl
  split
  · exact .of_plain hs rfl hmode (Region.resume_not_template _)
  split
  · exact .enter hs hmode rfl rfl pos
  split
  · exact .of_plain hs (quotedLiteral_concerns rfl ..) hmode hmode
  split <;> exact .of_plain hs rfl hmode hmode

theorem scanChildren_balanced (hs : Nest s.depth s.frames) (hmode : s.mode.isTemplate = false) :
    (scanChildren s region pos c rest).Balanced s := by
  unfold scanChildren
  split
  · exact .enter hs hmode rfl rfl pos
  split
  · exact .of_plain hs rfl hmode rfl
  split
  · exact .of_plain hs rfl hmode rfl
  split
  · rename_i l hl
    exact .of_plain hs (whitespace?_concerns hl) hmode hmode
  · exact .of_plain hs rfl hmode hmode

theorem scanEndTag_balanced {name : String} {start : Nat} (hs : Nest s.depth s.frames)
    (hmode : s.mode.isTemplate = false) :
    (scanEndTag detail s region name start pos c rest).Balanced s := by
  have hresume := region.resume_not_template
  have hmarks : LexState.marks { s with mode := region.resume } = s.marks := by
    rw [LexState.marks_of_not_template hmode, LexState.marks_of_not_template hresume]
  have hresumed : (scanResumed detail s region pos c rest).Balanced s := by
    have hnext :
        (scanResumed detail s region pos c rest).Balanced { s with mode := region.resume } := by
      unfold scanResumed
      simp only
      split
      · exact scanCode_balanced hs hresume
      · exact scanChildren_balanced hs hresume
    exact ⟨hnext.nest, hmarks ▸ hnext.reads⟩
  unfold scanEndTag
  split
  · exact .of_plain hs rfl hmode hresume
  split
  · rename_i l hl
    exact .of_plain hs (whitespace?_concerns hl) hmode hmode
  · exact ⟨hresumed.nest, hresumed.reads⟩

theorem LexState.marks_remember (s : LexState) (kind : TokenKind) (piece : List Char) :
    (s.remember kind piece).marks = s.marks := by
  unfold remember
  split <;> rfl

theorem LexState.nest_remember (hs : Nest s.depth s.frames) (kind : TokenKind)
    (piece : List Char) :
    Nest (s.remember kind piece).depth (s.remember kind piece).frames := by
  unfold remember
  split <;> exact hs

/-- A look names one piece, and does to the marks what the machine does at it. -/
theorem scan_balanced (detail : Detail) (pos : Nat) (hs : Nest s.depth s.frames)
    {text : List Char} (htext : text ≠ []) :
    Nest (scan detail s pos text).state.depth (scan detail s pos text).state.frames
      ∧ ∃ l, (scan detail s pos text).lexemes = [l]
        ∧ Mark.read s.marks l.kind = some (scan detail s pos text).state.marks := by
  obtain ⟨c, rest, rfl⟩ := List.exists_cons_of_ne_nil htext
  have hlook {step : Step} (h : step.Balanced s) (piece : List Char) :
      Nest (step.state.remember step.lexeme.kind piece).depth
          (step.state.remember step.lexeme.kind piece).frames
        ∧ ∃ l, [step.lexeme] = [l] ∧ Mark.read s.marks l.kind
          = some (step.state.remember step.lexeme.kind piece).marks :=
    ⟨LexState.nest_remember h.nest _ _, _, rfl, by rw [LexState.marks_remember]; exact h.reads⟩
  unfold scan
  refine hlook ?_ _
  cases hmode : s.mode with
  | code => exact scanCode_balanced hs (by rw [hmode]; rfl)
  | template start => exact scanTemplate_balanced hs hmode
  | attributes region => exact scanAttributes_balanced hs (by rw [hmode]; rfl)
  | children region => exact scanChildren_balanced hs (by rw [hmode]; rfl)
  | endTag region name start => exact scanEndTag_balanced hs (by rw [hmode]; rfl)

/-! ### Runs -/

/-- From the marks of its state the machine reads all tokens of a run. -/
theorem run_balanced (detail : Detail) (s : LexState) (pos : Nat) (text : List Char)
    (hs : Nest s.depth s.frames) :
    ∃ stack, Mark.readAll s.marks (((scanner detail).run 0 s pos text).tokens.map (·.kind))
      = some stack := by
  induction s, pos, text using (scanner detail).run_induction with
  | done s pos => exact ⟨_, rfl⟩
  | step s pos text htext rest ih =>
      obtain ⟨hnext, l, hl, hread⟩ := scan_balanced detail pos hs htext
      obtain ⟨more, hcut, hmore, -⟩ := Scan.cut_pieces hl pos text
      obtain ⟨stack, hstack⟩ := ih hnext
      have hfill : Mark.readAll (scan detail s pos text).state.marks (more.map (·.kind))
          = some (scan detail s pos text).state.marks := by
        clear hcut
        induction more with
        | nil => rfl
        | cons t more ih =>
            rw [List.map_cons, Mark.readAll_cons, hmore t List.mem_cons_self]
            exact ih fun t ht => hmore t (List.mem_cons_of_mem _ ht)
      refine ⟨stack, ?_⟩
      show Mark.readAll s.marks
        ((Lexeme.cut pos text (scan detail s pos text).pieces ++ rest.tokens).map (·.kind)) = _
      rw [hcut, List.cons_append, List.map_cons, Mark.readAll_cons, List.map_append]
      show (Mark.read s.marks l.kind).bind _ = _
      rw [hread, Option.bind_some, Mark.readAll_append, hfill, Option.bind_some]
      exact hstack

/-- The tokens that a run keeps are read to their end too. -/
theorem lex_balanced (detail : Detail) (pos : Nat) (text : List Char) :
    ∃ stack, Mark.readAll [] ((lex detail pos text).tokens.map (·.kind)) = some stack := by
  obtain ⟨stack, hstack⟩ := run_balanced detail {} pos text trivial
  refine ⟨stack, ?_⟩
  cases detail with
  | rich => exact hstack
  | structural =>
      have hkeep : ∀ kind, Mark.concerns kind = true → kind.isStructural = true := by
        intro kind
        cases kind <;> decide
      have hkept : (lex .structural pos text).tokens.map (·.kind)
          = (((scanner .structural).run 0 {} pos text).tokens.map (·.kind)).filter
              (·.isStructural) := by
        rw [List.filter_map]
        rfl
      rw [hkept, Mark.readAll_filter hkeep]
      exact hstack

end SourceView.Script

namespace SourceView

open Script

/-- **Templates and braces nest in the tokens of every script.**  The stack machine reads them to
the end, and where an interpolation closes, as many braces were closed as were opened since it was
opened. -/
theorem Language.script_balanced (detail : Detail) (embed : Bool) (source : List Char)
    (start : Nat) (stop : Option Nat) :
    let kinds := (script.lex detail embed source start stop).tokens.map (·.kind)
    (∃ stack, Mark.readAll [] kinds = some stack)
      ∧ ∀ before after, kinds = before ++ .templateExprClose :: after →
        ∃ outer inner, before = outer ++ .templateExprOpen :: inner
          ∧ Mark.readAll [.interpolation] inner = some [.interpolation]
          ∧ inner.count .blockOpen = inner.count .blockClose := by
  obtain ⟨stack, hstack⟩ := lex_balanced detail start (boundedText source start stop)
  rw [← lex_script detail embed] at hstack
  refine ⟨⟨stack, hstack⟩, fun before after hkinds => ?_⟩
  obtain ⟨outer, inner, hbefore, hinner⟩ :=
    Mark.exists_balanced ((congrArg (Mark.readAll []) hkinds).symm.trans hstack)
  exact ⟨outer, inner, hbefore, hinner.reads, by simpa using hinner.braces⟩

/-- Braces of a literal and of embedded markup in an interpolation, and a template in those. -/
theorem Language.script_balanced_of_nested_template :
    let source := "\x60$\x7b<a b=\x7b\x60x\x60\x7d>\x7b\x7b\x7d\x7d</a>\x7d\x60".toList
    let kinds := (script.lex .structural false source 0 none).tokens.map (·.kind)
    let before : List TokenKind :=
      [.templateStart, .templateExprOpen, .tagOpen, .blockOpen, .templateStart, .templateEnd,
        .blockClose, .tagEnd, .blockOpen, .blockOpen, .blockClose, .blockClose, .tagClose, .tagEnd]
    kinds = before ++ [.templateExprClose, .templateEnd]
      ∧ ∃ outer inner, before = outer ++ .templateExprOpen :: inner
        ∧ Mark.readAll [.interpolation] inner = some [.interpolation]
        ∧ inner.count .blockOpen = inner.count .blockClose := by
  intro source kinds before
  have hkinds : kinds = before ++ [.templateExprClose, .templateEnd] := by decide +kernel
  exact ⟨hkinds, (script_balanced .structural false source 0 none).2 before _ hkinds⟩

end SourceView
