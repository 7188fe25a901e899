/-
The three grammars follow traces.

Each rule of a grammar is a few loops that pass tokens and take nodes, and what it says of
where its node ends is how far the loop has read.  So a rule follows a trace when the rules
inside it do, and the symbols of a grammar follow traces at every height.
-/
import SourceView.Proofs.Parsing.ElementLedger
import SourceView.Proofs.Parsing.Nesting
import SourceView.Proofs.Parsing.Trace

namespace SourceView

open Parsing Parsing.Cursor

/-- A token that closes nothing, past whitespace. -/
theorem Parsing.Trace.piece (input : Input) (lo : Int) {c : Cursor} {t : Token} {rest : List Token}
    (hahead : c.skipTrivia.ahead = t :: rest) (ht : ¬t.kind.isCloser = true) :
    Trace input c lo [] c.skipTrivia.advance t.stop :=
  (Trace.trivia ..).before (.advance hahead (idle_of_not_shuts (Bool.eq_false_iff.mpr fun hshuts =>
    ht (TokenKind.isCloser_of_shuts hshuts))))

/-! ### Stylesheets -/

namespace Stylesheet

variable {input : Input}

theorem headLoop_trace {item : Production} (hitem : Traces input item) (stop : Option Int)
    (turns : Nat) {c : Cursor} (hc : c.Within input.tokens) (lo : Int) :
    Trace input c (stop.getD lo) (headLoop item stop turns c).children
      (headLoop item stop turns c).cursor ((headLoop item stop turns c).stop.getD lo) := by
  have hrun := headRun item turns stop c
  generalize headLoop item stop turns c = head at hrun
  induction hrun with
  | spent => exact .done
  | ended | stopped => exact .trivia ..
  | @node _ stop c _ _ _ _ _ _ _ _ hnode _ ih =>
      have hskip := Trace.trivia input c (stop.getD lo)
      have hread := hskip.before
        (hitem.trace (atToken_skipTrivia _) (hskip.within_tokens hc) hnode _)
      exact hread.cons (ih (hread.within_tokens hc))
  | @piece _ stop _ _ _ _ hahead hend _ _ ih =>
      have hpassed := Trace.piece input (stop.getD lo) hahead fun h => hend (Or.inr (Or.inr h))
      exact hpassed.before (ih (hpassed.within_tokens hc))

/-- The groups in a value are read, but no node of the declaration. -/
theorem valueLoop_trace {item : Production} (hitem : Traces input item) {turns : Nat}
    {v w : Value} (h : valueLoop item turns v = .ok w) (hv : v.cursor.Within input.tokens) :
    ∃ nodes, Trace input v.cursor v.stop nodes w.cursor w.stop := by
  have hrun := valueRun item turns v
  rw [h] at hrun
  clear h
  generalize hfound : Except.ok w = found at hrun
  induction hrun with
  | spent =>
      cases hfound
      exact ⟨_, .done⟩
  | ended | closed =>
      cases hfound
      exact ⟨_, .trivia ..⟩
  | opened => cases hfound
  | semicolon hahead ht =>
      cases hfound
      exact ⟨_, .piece input _ hahead (by rw [ht]; decide)⟩
  | @important _ v _ _ _ hahead hplain _ _ ih | @piece _ v _ _ _ hahead hplain _ _ _ ih =>
      have hpassed := Trace.piece input v.stop hahead fun h => hplain (Or.inr (Or.inr h))
      obtain ⟨nodes, hmore⟩ := ih (hpassed.within_tokens hv) hfound
      exact ⟨nodes, hpassed.before hmore⟩
  | @group _ v _ _ _ _ _ _ _ _ _ hnode _ ih =>
      have hskip := Trace.trivia input v.cursor v.stop
      have hread := hskip.before
        (hitem.trace (atToken_skipTrivia _) (hskip.within_tokens hv) hnode _)
      obtain ⟨nodes, hmore⟩ := ih (hread.within_tokens hv) hfound
      exact ⟨_, hread.cons hmore⟩

theorem traces_rule (starts : Array Bool) {item block : Production} (hitem : Traces input item)
    (hblock : Traces input block) : Traces input (rule input starts item block) := by
  refine { moves_rule input starts hitem.toMoves hblock.toMoves with trace := ?_ }
  intro c node d hat hc h lo
  have hshort := ((moves_rule input starts hitem.toMoves hblock.toMoves).steps h).shorter
  obtain ⟨hahead, -, -, hbody⟩ := rule_eq_some.mp h
  have hhead := (headLoop_trace hitem none input.bound hc (c.previousEnd input)).after
    (.trivia ..)
  have hread := hblock.trace (atToken_skipTrivia _) (hhead.within_tokens hc) hbody
  exact .node (hhead.append (hread _)) (.plain hahead (hat _ _ hahead) hshort rfl)

theorem traces_atRule {item block : Production} (hitem : Traces input item)
    (hblock : Traces input block) : Traces input (atRule input item block) := by
  refine { moves_atRule input hitem.toMoves hblock.toMoves with trace := ?_ }
  intro c node d hat hc h lo
  have hshort := ((moves_atRule input hitem.toMoves hblock.toMoves).steps h).shorter
  obtain ⟨keyword, after, hkeyword⟩ : ∃ keyword after, atKeyword? input c = some (keyword, after) := by
    cases atRuleRead h <;> exact ⟨_, _, ‹_›⟩
  obtain ⟨hkind, -, rfl, hahead⟩ := accept?_eq_some (atKeyword?_eq_some.mp hkeyword).2
  have hadvance : Trace input c (c.previousEnd input) [] c.advance keyword.stop :=
    .advance hahead (idle_of_not_shuts (by rw [hkind]; rfl))
  have hhead := (hadvance.before (headLoop_trace hitem none input.bound
    (hadvance.within_tokens hc) keyword.stop)).after (.trivia ..)
  cases atRuleRead h with
  | semicolon hkeyword' hsemicolon =>
      cases hkeyword.symm.trans hkeyword'
      obtain ⟨hkind', -, rfl, hahead'⟩ := accept?_eq_some hsemicolon
      exact .node (hhead.after (.advance hahead' (idle_of_not_shuts (by rw [hkind']; rfl))))
        (.plain hahead (hat _ _ hahead) hshort rfl)
  | block hkeyword' hbody =>
      cases hkeyword.symm.trans hkeyword'
      have hread := hblock.trace (atToken_skipTrivia _) (hhead.within_tokens hc) hbody
      exact .node (hhead.append (hread _)) (.plain hahead (hat _ _ hahead) hshort rfl)
  | bare hkeyword' =>
      cases hkeyword.symm.trans hkeyword'
      exact .node hhead (.plain hahead (hat _ _ hahead) hshort rfl)

theorem traces_declaration {item : Production} (hitem : Traces input item) :
    Traces input (declaration input item) := by
  refine { moves_declaration input hitem.toMoves with trace := ?_ }
  intro c node d _ hc h lo
  cases declarationRead h with
  | @mk property _ start value hahead hstart hvalue =>
      obtain ⟨-, -, -, colon, e, hcolon, rfl⟩ := declarationStart_eq_ok.mp hstart
      obtain ⟨hkind, -, rfl, hahead'⟩ := accept?_eq_some hcolon
      have hhead : Trace input c.advance property.stop [] c.advance.skipTrivia.advance
          (c.advance.skipTrivia.advance.previousEnd input) := by
        rw [previousEnd_advance hahead']
        exact .piece input _ hahead' (by rw [hkind]; decide)
      have hadvance : c.advance.Within input.tokens := hc.passes (leads_advance c).passes
      obtain ⟨nodes, htrace⟩ := valueLoop_trace hitem hvalue (hhead.within_tokens hadvance)
      exact .node (hhead.before htrace) (.leaf hahead)

theorem traces_derive (hplain : input.Plain) (starts : Array Bool) {self : Symbol → Production}
    (hself : ∀ s, s ≠ .document → Traces input (self s)) :
    Traces input (derive.statement input self)
      ∧ ∀ s, s ≠ .document → Traces input (derive input starts self s) := by
  have hstructures : Traces input (derive.structures self) :=
    Traces.choice_map fun s hs => hself s (ne_of_mem_of_not_mem hs (by decide))
  have hstatement : Traces input (derive.statement input self) :=
    Traces.choice_map fun s hs => hself s (ne_of_mem_of_not_mem hs (document_notMem input.rich))
  refine ⟨hstatement, fun s hs => ?_⟩
  cases s with
  | document => exact absurd rfl hs
  | comment => exact traces_comment
  | block => exact Group.traces_read Group.block_apt hplain hstatement
  | parentheses => exact Group.traces_read Group.parentheses_apt hplain hstructures
  | brackets => exact Group.traces_read Group.brackets_apt hplain hstructures
  | rule => exact traces_rule starts hstructures (hself .block (by simp))
  | atRule => exact traces_atRule hstructures (hself .block (by simp))
  | declaration => exact traces_declaration hstructures

theorem traces_readWithin (hplain : input.Plain) (starts : Array Bool) (height : Nat) (s : Symbol)
    (hs : s ≠ .document) : Traces input (readWithin input starts height s) := by
  induction height generalizing s with
  | zero => exact traces_nothing
  | succ height ih => exact (traces_derive hplain starts ih).2 s hs

theorem parse_follows (hplain : input.Plain) : (grammar.parse input).Follows input :=
  Parse.follows_ofItems (parse_eq input)
    (traces_derive hplain (ruleStarts input.tokens).toArray (traces_readWithin hplain _ _)).1

end Stylesheet

/-! ### Scripts -/

namespace Script

variable {input : Input}

/-- The read of a template stopped at `d`: at its backtick, if that was there, which it then
passed. -/
def TemplateRead.StopsAt (read : TemplateRead) (d : Cursor) : Prop :=
  match read.stop with
  | none => read.cursor = d
  | some stop => ∃ t rest, d.ahead = t :: rest ∧ t.kind = .templateEnd ∧ stop = t.stop
      ∧ read.cursor = d.advance

theorem templateLoop_trace {item : Production} (hitem : Traces input item) (turns : Nat)
    {c : Cursor} (hc : c.Within input.tokens) (lo : Int) :
    ∃ d hi, Trace input c lo (templateLoop input item turns c).children d hi
      ∧ (templateLoop input item turns c).StopsAt d := by
  have hrun := templateRun input item turns c
  generalize templateLoop input item turns c = read at hrun
  have hadvance {c : Cursor} {t : Token} {rest : List Token} (hahead : c.ahead = t :: rest)
      (ht : ¬t.kind.isCloser = true) (lo : Int) : Trace input c lo [] c.advance t.stop :=
    .advance hahead (idle_of_not_shuts (Bool.eq_false_iff.mpr fun hshuts =>
      ht (TokenKind.isCloser_of_shuts hshuts)))
  have hinner {c : Cursor} {t : Token} {rest : List Token} (hc : c.Within input.tokens)
      (hahead : c.ahead = t :: rest) (hopen : t.kind = .templateExprOpen) (lo : Int) :
      ∃ e mid, Trace input c lo (interpolation input item t c).nodes (e.closeTo c.advance) mid
        ∧ (interpolation input item t c).StopsAt (some .templateExprClose) e := by
    have hopened := hadvance hahead (by rw [hopen]; decide) lo
    obtain ⟨e, mid, htrace, hstops⟩ := itemsLoop_trace hitem (some .templateExprClose)
      input.bound (c := c.advance.push { closer := .templateExprClose, start := t.start })
      (hopened.within_tokens hc) t.stop
    exact ⟨e, mid, hopened.before htrace.within, hstops⟩
  induction hrun generalizing lo with
  | @spent c | @exhausted _ c | @stopped _ c => exact ⟨c, lo, .done, rfl⟩
  | @ended _ c t rest hahead hend => exact ⟨c, lo, .done, t, rest, hahead, hend, rfl, rfl⟩
  | unclosed hahead hopen hcloser =>
      obtain ⟨e, mid, htrace, hstops⟩ := hinner hc hahead hopen lo
      rw [Items.StopsAt, hcloser] at hstops
      exact ⟨_, _, htrace, hstops ▸ rfl⟩
  | @closed _ c _ _ _ _ hahead hopen hcloser _ ih =>
      obtain ⟨e, mid, htrace, hstops⟩ := hinner hc hahead hopen lo
      rw [Items.StopsAt, hcloser] at hstops
      obtain ⟨rest', hend, hkind, hcursor⟩ := hstops
      rw [hcursor] at ih
      -- The closer of an interpolation closes no node.
      have hskips : (e.closeTo c.advance).Skips (·.kind.shuts = false)
          (e.advance.closeTo c.advance) :=
        ⟨(skips_advance hend (P := (·.kind.shuts = false))
          (by rw [Option.some.inj hkind]; rfl)).tokens,
          (skips_advance hend (P := fun _ => True) trivial).faults, rfl⟩
      have hclose := htrace.after (.skips hskips (steps_advance hend).shorter)
      obtain ⟨d, hi, hmore, hlast⟩ := ih (hclose.within_tokens hc) _
      exact ⟨d, hi, hclose.append hmore, hlast⟩
  | filler hahead hclose _ _ ih =>
      have hpassed := hadvance hahead hclose lo
      obtain ⟨d, hi, hmore, hlast⟩ := ih (hpassed.within_tokens hc) _
      exact ⟨d, hi, hpassed.before hmore, hlast⟩

theorem traces_template (hplain : input.Plain) {item : Production} (hitem : Traces input item) :
    Traces input (template input item) := by
  refine { moves_template input hitem.toMoves with trace := ?_ }
  intro c node d _ hc h lo
  obtain ⟨opener, rest, hahead, hkind, hread⟩ := literalRead h
  obtain ⟨e, hi, htrace, hstops⟩ := templateLoop_trace hitem input.bound
    (c := c.advance.push { closer := .templateEnd, start := opener.start })
    (hc.passes (leads_advance c).passes) opener.stop
  cases hread with
  | skipped => exact .node .done (.flat hplain hahead (by rw [hkind]; rfl) rfl)
  | closed hdeep hread hend =>
      rw [hread] at htrace hstops
      rw [TemplateRead.StopsAt, hend] at hstops
      obtain ⟨t, rest', hlast, ht, rfl, hcursor⟩ := hstops
      rw [hcursor]
      exact .node htrace (.shut hplain hahead (Bool.eq_false_iff.mpr hdeep) rfl hlast ht)
  | unclosed hdeep hread hend =>
      rw [hread] at htrace hstops
      rw [TemplateRead.StopsAt, hend] at hstops
      have hopener : opener.kind ≠ .templateEnd := by
        rw [hkind]
        decide
      rw [hstops]
      exact .node htrace (.ajar hplain hahead (by rw [hkind]; rfl) hopener
        (Bool.eq_false_iff.mpr hdeep) rfl)

theorem statementLoop_trace {item : Production} (hitem : Traces input item) (turns : Nat)
    (p : Progress) {c : Cursor} (hc : c.Within input.tokens) :
    Trace input c p.stop (statementLoop item turns p c).children
      (statementLoop item turns p c).cursor (statementLoop item turns p c).stop := by
  have hrun := statementRun item turns p c
  generalize statementLoop item turns p c = found at hrun
  induction hrun with
  | spent => exact .done
  | exhausted | ended => exact .trivia ..
  | semicolon hahead hend => exact .piece input _ hahead fun h => hend (Or.inl h)
  | @node _ p c _ _ _ _ _ _ _ _ hnode _ ih =>
      have hskip := Trace.trivia input c p.stop
      have hread := hskip.before
        (hitem.trace (atToken_skipTrivia _) (hskip.within_tokens hc) hnode _)
      have hmore := ih (hread.within_tokens hc)
      rw [Progress.after_stop] at hmore
      exact hread.cons hmore
  | @piece _ p _ _ _ _ hahead hend _ _ _ ih =>
      have hpassed := Trace.piece input p.stop hahead fun h => hend (Or.inl h)
      exact hpassed.before (ih (hpassed.within_tokens hc))

theorem traces_functionDeclaration {parentheses block : Production}
    (hparentheses : Traces input parentheses) (hblock : Traces input block) :
    Traces input (functionDeclaration input parentheses block) := by
  refine { moves_functionDeclaration input hparentheses.toMoves hblock.toMoves with trace := ?_ }
  intro c node d hat hc h lo
  have hshort :=
    ((moves_functionDeclaration input hparentheses.toMoves hblock.toMoves).steps h).shorter
  cases functionRead h with
  | @mk head parts _ hhead hparts =>
      obtain ⟨⟨first, rest, hahead, hfirst⟩, hsteps, hskims⟩ := functionHead_eq_ok hhead
      have hpass : Trace input c (c.previousEnd input) [] head.cursor
          (head.cursor.previousEnd input) :=
        .skips hskims.skips hsteps.shorter
      have hps : ∀ p ∈ [parentheses, block], Traces input p := by simp [hparentheses, hblock]
      have htrace := sequence?_trace hps (hpass.within_tokens hc) hparts
        (head.cursor.previousEnd input)
      -- Two parts are read, so the end of the last one is there.
      have hlast : parts.getLast?.elim (head.cursor.previousEnd input) Node.stop
          = parts.getLast?.elim head.start Node.stop := by
        cases parts with
        | nil =>
            unfold sequence? at hparts
            split at hparts
            · exact absurd hparts (by simp)
            · simp [Option.map_eq_some_iff] at hparts
        | cons part parts => rw [List.getLast?_cons]; rfl
      rw [hlast] at htrace
      rw [hfirst] at htrace ⊢
      exact .node (hpass.before htrace) (.plain hahead (hat _ _ hahead) hshort rfl)

theorem traces_variableDeclaration {item : Production} (hitem : Traces input item) :
    Traces input (variableDeclaration input item) := by
  refine { moves_variableDeclaration input hitem.toMoves with trace := ?_ }
  intro c node d hat hc h lo
  have hshort := ((moves_variableDeclaration input hitem.toMoves).steps h).shorter
  obtain ⟨hhead⟩ := variableRead h
  obtain ⟨-, keyword, c', hkeyword, rfl⟩ := variableHead?_eq_some.mp hhead
  obtain ⟨hkind, -, -, hahead⟩ := accept?_eq_some hkeyword
  have hname : c.Skims (c'.skipTrivia.skip .identifier fun _ => true) :=
    ((skims_of_accept? hkeyword rfl).trans (skims_skipTrivia c')).trans
      (skims_skip _ .identifier (fun _ => true) rfl)
  have hsteps := (steps_of_accept? hkeyword).trans_leads
    ((leads_skipTrivia c').trans (leads_skip _ .identifier fun _ => true))
  have hpass : Trace input c (c.previousEnd input) [] _ _ := .skips hname.skips hsteps.shorter
  have hrest := statementLoop_trace hitem input.bound
    ⟨(c'.skipTrivia.skip .identifier fun _ => true).previousEnd input,
      ((c'.skipTrivia.acceptKind? .identifier).map Prod.fst).isSome, false⟩ (hpass.within_tokens hc)
  exact .node (hpass.before hrest) (.plain hahead (hat _ _ hahead) hshort rfl)

theorem traces_statement {item : Production} (hitem : Traces input item) :
    Traces input (statement input item) := by
  refine { moves_statement input hitem.toMoves with trace := ?_ }
  intro c node d hat hc h lo
  have hshort := ((moves_statement input hitem.toMoves).steps h).shorter
  cases statementRead h with
  | @mk first hfirst =>
      obtain ⟨rest, hahead⟩ := ahead_of_peek? (statementStart?_eq_some.mp hfirst).1
      exact .node (statementLoop_trace hitem input.bound
          ⟨c.previousEnd input, false, isControl first⟩ hc)
        (.plain hahead (hat _ _ hahead) hshort rfl)

theorem traces_derive (hplain : input.Plain) {self : Symbol → Production}
    (hself : ∀ s, s ≠ .document → Traces input (self s)) :
    Traces input (derive.statements input self)
      ∧ ∀ s, s ≠ .document → Traces input (derive input self s) := by
  have hstructures : Traces input (derive.structures self) :=
    Traces.choice_map fun s hs => hself s (ne_of_mem_of_not_mem hs (by decide))
  have hstatements : Traces input (derive.statements input self) :=
    Traces.choice_map fun s hs => hself s (ne_of_mem_of_not_mem hs (document_notMem input.rich))
  have hchildren : Traces input (choice (Symbol.children.map self)) :=
    Traces.choice_map fun s hs => hself s (ne_of_mem_of_not_mem hs (by decide))
  have hexpression : Traces input (choice ([.block].map self)) :=
    Traces.choice_map fun s hs => hself s (ne_of_mem_of_not_mem hs (by decide))
  refine ⟨hstatements, fun s hs => ?_⟩
  cases s with
  | document => exact absurd rfl hs
  | comment => exact traces_comment
  | block => exact Group.traces_read Group.block_apt hplain hstatements
  | parentheses => exact Group.traces_read Group.parentheses_apt hplain hstructures
  | brackets => exact Group.traces_read Group.brackets_apt hplain hstructures
  | template => exact traces_template hplain hstructures
  | element => exact traces_element Dialect.script hchildren hexpression (Or.inr hplain)
  | text => exact traces_text
  | functionDeclaration =>
      exact traces_functionDeclaration (hself .parentheses (by simp)) (hself .block (by simp))
  | variableDeclaration => exact traces_variableDeclaration hstructures
  | statement => exact traces_statement hstructures

theorem traces_readWithin (hplain : input.Plain) (height : Nat) (s : Symbol)
    (hs : s ≠ .document) : Traces input (readWithin input height s) := by
  induction height generalizing s with
  | zero => exact traces_nothing
  | succ height ih => exact (traces_derive hplain ih).2 s hs

theorem parse_follows (hplain : input.Plain) : (grammar.parse input).Follows input :=
  Parse.follows_ofItems (parse_eq input) (traces_derive hplain (traces_readWithin hplain _)).1

end Script

/-! ### Markup -/

namespace Markup

variable {input : Input}

theorem embeddedGrammar?_follows {language : String} {g : Grammar Rule}
    (h : embeddedGrammar? language = some g) (hplain : input.Plain) :
    (g.parse input).Follows input := by
  unfold embeddedGrammar? at h
  split at h
  · exact Option.some.inj h ▸ Stylesheet.parse_follows hplain
  · exact Option.some.inj h ▸ Script.parse_follows hplain
  · exact absurd h (by simp)

theorem traces_rawText (hregions : ∀ t ∈ input.tokens, (input.region t).Plain) :
    Traces input (rawText input) := by
  refine { moves_rawText input with trace := ?_ }
  intro c node d hat hc h lo
  have hshort := ((moves_rawText input).steps h).shorter
  unfold rawText at h
  split at h
  · exact absurd h (by simp)
  · rename_i t c' ht
    obtain ⟨hkind, -, rfl, hahead⟩ := accept?_eq_some ht
    have hbare : Trace input c lo [.container t.start t.stop (.rawText t.language) []]
        c.advance t.stop :=
      .node (.advance hahead (idle_of_not_shuts (by rw [hkind]; rfl)))
        (.plain hahead (hat _ _ hahead) (steps_advance hahead).shorter rfl)
    simp only at h
    split at h
    · simp only [Option.some.injEq, Prod.mk.injEq] at h
      obtain ⟨rfl, rfl⟩ := h
      exact hbare
    rename_i hembedded
    split at h
    · simp only [Option.some.injEq, Prod.mk.injEq] at h
      obtain ⟨rfl, rfl⟩ := h
      exact hbare
    · rename_i grammar hgrammar
      simp only [Option.some.injEq, Prod.mk.injEq] at h
      obtain ⟨rfl, rfl⟩ := h
      obtain ⟨nodes, d, hi, htrace, htree, hfaults⟩ :=
        embeddedGrammar?_follows hgrammar (hregions t (hc.mem hahead))
      change (grammar.parse (input.region t)).tree = _ at htree
      change (grammar.parse (input.region t)).faults = _ at hfaults
      have hbody : Trace input c lo [.container t.start t.stop (.rawText t.language) nodes]
          { c.advance with
            faults := d.faults ++ c.advance.faults
            reports := (grammar.parse (input.region t)).reports.reverse ++ c.advance.reports }
          t.stop :=
        .node htrace (.body hahead fun hnil => hembedded (List.isEmpty_iff.mpr hnil))
      rw [← List.reverse_reverse d.faults, ← hfaults] at hbody
      have hchildren : (grammar.parse (input.region t)).tree.children = nodes := by rw [htree]; rfl
      rw [← hchildren] at hbody
      exact hbody

theorem traces_derive (hregions : ∀ t ∈ input.tokens, (input.region t).Plain)
    {self : Symbol → Production} (hself : ∀ s, s ≠ .document → Traces input (self s)) :
    Traces input (choice (Symbol.outer.map self))
      ∧ ∀ s, s ≠ .document → Traces input (derive input self s) := by
  have houter : Traces input (choice (Symbol.outer.map self)) :=
    Traces.choice_map fun s hs => hself s (ne_of_mem_of_not_mem hs (by decide))
  have hchildren : Traces input (choice (Symbol.children.map self)) :=
    Traces.choice_map fun s hs => hself s (ne_of_mem_of_not_mem hs (by decide))
  refine ⟨houter, fun s hs => ?_⟩
  cases s with
  | document => exact absurd rfl hs
  | comment => exact traces_comment
  | element =>
      exact traces_element Dialect.markup hchildren (Traces.choice (by simp))
        (Or.inl fun turns c => (startTagLoop_passesNoTag input Dialect.markup turns c).2)
  | text => exact traces_text
  | rawText => exact traces_rawText hregions

theorem traces_readWithin (hregions : ∀ t ∈ input.tokens, (input.region t).Plain) (height : Nat)
    (s : Symbol) (hs : s ≠ .document) : Traces input (readWithin input height s) := by
  induction height generalizing s with
  | zero => exact traces_nothing
  | succ height ih => exact (traces_derive hregions ih).2 s hs

theorem parse_follows (hregions : ∀ t ∈ input.tokens, (input.region t).Plain) :
    (grammar.parse input).Follows input :=
  Parse.follows_ofItems (parse_eq input) (traces_derive hregions (traces_readWithin hregions _)).1

end Markup

end SourceView
