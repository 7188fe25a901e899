/-
Comments among the parameters of a function.

The scan of a parameter list goes from token to token and has two things in mind: how deep it is in
brackets, and whether a name is due.  At depth one a name is due at the start and behind a comma;
whitespace and the mark of a rest parameter leave it due, and anything else does not.  A comment is
such a thing, although it is none of the list's business.

So a comment is passed over where no name is due, and where the next thing in the list is no name.
Elsewhere the scan loses just the one name behind it (`paramNames_insert`).
-/
import SourceView.Proofs.Embedding.Shift

namespace SourceView

namespace Script

open Parsing

/-! ### The scan of a parameter list -/

/-- Whether a token marks a rest parameter. -/
def isRestMark (t : Token) : Bool :=
  t.kind == .operator && t.value == "..."

/-- What the scan has in mind behind a token: its depth, and whether a name is due.  The closer of
the list ends it. -/
def scanParam (depth : Int) (due : Bool) (t : Token) : Option (Int × Bool) :=
  match t.kind with
  | .parenOpen => some (depth + 1, depth == 0)
  | .bracketOpen | .blockOpen => some (depth + 1, false)
  | .parenClose | .bracketClose | .blockClose =>
    if depth = 1 then none else some (depth - 1, due && depth != 2)
  | kind =>
    if depth ≠ 1 ∨ kind.isTrivia ∨ isRestMark t then some (depth, due)
    else some (depth, kind == .punctuation && t.value == ",")

/-- What the scan has in mind behind the tokens, unless the list has ended in them. -/
def scanParams (depth : Int) (due : Bool) : List Token → Option (Int × Bool)
  | [] => some (depth, due)
  | t :: ts => (scanParam depth due t).bind fun (depth, due) => scanParams depth due ts

/-- The name that a token is for the scan. -/
def paramName? (depth : Int) (due : Bool) (t : Token) : Option String :=
  if depth = 1 ∧ due ∧ t.kind = .identifier then some t.value else none

variable {depth : Int} {due : Bool} {t : Token} {ts before after : List Token}

theorem paramNamesFrom_cons :
    paramNamesFrom depth due (t :: ts)
      = (paramName? depth due t).toList
        ++ (scanParam depth due t).elim [] fun (depth, due) => paramNamesFrom depth due ts := by
  rw [paramNamesFrom, paramName?, scanParam]
  cases hkind : t.kind <;> simp [TokenKind.isTrivia, isRestMark, hkind] <;> grind

theorem paramNamesFrom_append :
    paramNamesFrom depth due (before ++ after)
      = paramNamesFrom depth due before
        ++ (scanParams depth due before).elim []
          fun (depth, due) => paramNamesFrom depth due after := by
  induction before generalizing depth due with
  | nil => simp [scanParams, paramNamesFrom]
  | cons t before ih =>
      rw [List.cons_append, paramNamesFrom_cons, paramNamesFrom_cons, scanParams, List.append_assoc]
      cases scanParam depth due t with
      | none => rfl
      | some next => simp [ih]

/-! ### A comment in the list -/

/-- Whether tokens of this kind are comments. -/
def isComment : TokenKind → Bool
  | .comment | .lineComment => true
  | _ => false

/-- The name that comes first, behind whitespace and the mark of a rest parameter. -/
def nameAhead? : List Token → Option String
  | [] => none
  | t :: ts =>
    if t.kind.isTrivia ∨ isRestMark t then nameAhead? ts
    else if t.kind = .identifier then some t.value
    else none

/-- The name that a comment between the tokens keeps from the scan: the one that comes first behind
it, where a name is due. -/
def hiddenName? (before after : List Token) : Option String :=
  if scanParams 0 false before = some (1, true) then nameAhead? after else none

theorem scanParam_comment (ht : isComment t.kind = true) :
    scanParam depth due t = some (depth, due && depth != 1) := by
  rw [scanParam]
  cases hkind : t.kind <;> simp_all [isComment, TokenKind.isTrivia, isRestMark] <;> grind

theorem paramName?_comment (ht : isComment t.kind = true) : paramName? depth due t = none := by
  rw [paramName?, if_neg]
  rintro ⟨-, -, hkind⟩
  rw [hkind] at ht
  exact absurd ht (by decide)

/-- Whether a name is due or not makes no difference but for the name that comes first. -/
theorem paramNamesFrom_due (ts : List Token) :
    paramNamesFrom 1 true ts = (nameAhead? ts).toList ++ paramNamesFrom 1 false ts := by
  induction ts with
  | nil => rfl
  | cons t ts ih =>
      rw [paramNamesFrom_cons, paramNamesFrom_cons, nameAhead?]
      by_cases hpassed : t.kind.isTrivia ∨ isRestMark t
      · have hscan (due : Bool) : scanParam 1 due t = some (1, due) := by
          rw [scanParam]
          cases hkind : t.kind <;> simp_all [TokenKind.isTrivia, isRestMark]
        have hname (due : Bool) : paramName? 1 due t = none := by
          rw [paramName?, if_neg]
          rintro ⟨-, -, hkind⟩
          simp [hkind, TokenKind.isTrivia, isRestMark] at hpassed
        rw [if_pos hpassed, hscan, hscan, hname, hname]
        exact ih
      · have hscan : scanParam 1 true t = scanParam 1 false t := by
          rw [scanParam, scanParam]
          cases hkind : t.kind <;> simp_all
        rw [if_neg hpassed, hscan]
        simp [paramName?]

/-- A comment costs the list the name that it hides, and nothing else. -/
theorem paramNames_insert (ht : isComment t.kind = true) (before after : List Token) :
    ∃ later, paramNames (before ++ after)
        = paramNames before ++ (hiddenName? before after).toList ++ later
      ∧ paramNames (before ++ t :: after) = paramNames before ++ later := by
  simp only [paramNames, paramNamesFrom_append, hiddenName?]
  cases hscan : scanParams 0 false before with
  | none => exact ⟨[], by simp, by simp⟩
  | some state =>
      obtain ⟨depth, due⟩ := state
      simp only [Option.elim_some, paramNamesFrom_cons, scanParam_comment ht, paramName?_comment ht,
        Option.toList_none, List.nil_append]
      refine ⟨_, ?_, rfl⟩
      by_cases hdue : depth = 1 ∧ due = true
      · obtain ⟨rfl, rfl⟩ := hdue
        simpa using paramNamesFrom_due after
      · have hkept : (due && depth != 1) = due := by cases due <;> simp_all
        rw [if_neg (by simpa using hdue), hkept]
        simp

theorem paramNames_insert_eq_iff (ht : isComment t.kind = true) (before after : List Token) :
    paramNames (before ++ t :: after) = paramNames (before ++ after)
      ↔ hiddenName? before after = none := by
  obtain ⟨later, hwithout, hwith⟩ := paramNames_insert ht before after
  rw [hwithout, hwith]
  cases hiddenName? before after <;> simp

/-! ### Declarations -/

/-- The cursor behind the name of a function, where its list begins; `c` is behind the keyword. -/
def nameEnd (c : Cursor) : Cursor :=
  (c.skipTrivia.skip .operator (· == "*")).skipTrivia.skip .identifier fun _ => true

/-- The cursor where the list of the function begins that is declared at `c`. -/
def listStart (c : Cursor) : Cursor :=
  let c := match c.accept? .keyword (· == "async") with
    | some (_, c) => c.skipTrivia
    | none => c
  nameEnd (c.skip .keyword (· == "function"))

/-- The parameters of a declared function. -/
def declaredParams : Node → List String
  | .container _ _ (.functionDeclaration _ params) _ => params
  | _ => []

theorem listStart_of_functionHead {input : Input} {c : Cursor} {head : FunctionHead}
    (h : functionHead input c = .ok head) : listStart c = head.cursor := by
  unfold functionHead at h
  split at h
  · exact absurd h (by simp)
  cases hasync : c.accept? .keyword (· == "async") with
  | none =>
      cases hkeyword : c.accept? .keyword (· == "function") with
      | none => simp [hasync, hkeyword] at h
      | some keyword =>
          simp only [hasync, hkeyword, Except.ok.injEq] at h
          simp only [listStart, Cursor.skip, hasync, hkeyword, ← h]
          rfl
  | some async =>
      cases hkeyword : async.2.skipTrivia.accept? .keyword (· == "function") with
      | none => simp [hasync, hkeyword] at h
      | some keyword =>
          simp only [hasync, hkeyword, Except.ok.injEq] at h
          simp only [listStart, Cursor.skip, hasync, hkeyword, ← h]
          rfl

/-- A declaration has the parameters that stand between its name and its end. -/
theorem declaredParams_read {input : Input} {c d : Cursor} {node : Node}
    (h : read input .functionDeclaration c = some (node, d)) :
    declaredParams node = paramNames ((listStart c).tokensUntil d) := by
  rw [read] at h
  obtain ⟨hhead, -⟩ := functionRead h
  rw [listStart_of_functionHead hhead]
  rfl

/-- What the scan of a parameter list sees of a token. -/
def kindAndText (t : Token) : TokenKind × String :=
  (t.kind, t.value)

/-- Where the tokens lie makes no difference to the names. -/
theorem paramNames_congr {ts us : List Token} (h : ts.map kindAndText = us.map kindAndText) :
    paramNames ts = paramNames us := by
  unfold paramNames
  generalize (0 : Int) = depth, false = due
  induction ts generalizing us depth due with
  | nil =>
      obtain rfl : us = [] := by simpa using h.symm
      rfl
  | cons t ts ih =>
      cases us with
      | nil => simp at h
      | cons u us =>
          obtain ⟨⟨hkind, hvalue⟩, h⟩ : (t.kind = u.kind ∧ t.value = u.value)
              ∧ ts.map kindAndText = us.map kindAndText := by simpa [kindAndText] using h
          have hname : paramName? depth due t = paramName? depth due u := by
            simp only [paramName?, hkind, hvalue]
          have hscan : scanParam depth due t = scanParam depth due u := by
            cases t
            cases u
            cases hkind
            cases hvalue
            rfl
          rw [paramNamesFrom_cons, paramNamesFrom_cons, hname, hscan]
          cases scanParam depth due u with
          | none => rfl
          | some next => exact congrArg _ (ih h _ _)

/-- **When a comment changes the parameters of a function.**  It does if it stands where a name is
due and a name comes next: that name is lost, and no other. -/
theorem params_kept_iff {t : Token} (ht : isComment t.kind = true) (before after : List Token) :
    (paramNames (before ++ t :: after) = paramNames (before ++ after)
        ↔ hiddenName? before after = none)
      ∧ (∃ later, paramNames (before ++ after)
            = paramNames before ++ (hiddenName? before after).toList ++ later
          ∧ paramNames (before ++ t :: after) = paramNames before ++ later)
      ∧ ∀ {input input' : Input} {c c' d d' : Cursor} {node node' : Node},
        read input .functionDeclaration c = some (node, d) →
        ((listStart c).tokensUntil d).map kindAndText = (before ++ after).map kindAndText →
        read input' .functionDeclaration c' = some (node', d') →
        ((listStart c').tokensUntil d').map kindAndText = (before ++ t :: after).map kindAndText →
        (declaredParams node' = declaredParams node ↔ hiddenName? before after = none) := by
  refine ⟨paramNames_insert_eq_iff ht before after, paramNames_insert ht before after, ?_⟩
  intro input input' c c' d d' node node' hread htokens hread' htokens'
  rw [declaredParams_read hread, declaredParams_read hread', paramNames_congr htokens,
    paramNames_congr htokens']
  exact paramNames_insert_eq_iff ht before after

/-- A comment hides the only parameter. -/
theorem params_hidden_by_comment :
    let plain := Language.script.input {} .rich "function f(a)\x7b\x7d".toList
    let commented := Language.script.input {} .rich "function f(/**/a)\x7b\x7d".toList
    ∃ node node' d d', read plain .functionDeclaration plain.cursor = some (node, d)
      ∧ read commented .functionDeclaration commented.cursor = some (node', d')
      ∧ declaredParams node = ["a"] ∧ declaredParams node' ≠ declaredParams node := by
  intro plain commented
  let before : List Token := (plain.tokens.drop 3).take 1
  let after : List Token := plain.tokens.drop 4
  let comment : Token := { kind := .comment, value := "/**/", start := 11, stop := 15 }
  obtain ⟨⟨node, d⟩, hread, hnode⟩ : ∃ found,
      read plain .functionDeclaration plain.cursor = some found
        ∧ (decide (((listStart plain.cursor).tokensUntil found.2).map kindAndText
            = (before ++ after).map kindAndText)
          && decide (declaredParams found.1 = ["a"])) = true :=
    (Option.any_eq_true _ _).mp (by decide +kernel)
  obtain ⟨⟨node', d'⟩, hread', htokens'⟩ : ∃ found,
      read commented .functionDeclaration commented.cursor = some found
        ∧ decide (((listStart commented.cursor).tokensUntil found.2).map kindAndText
            = (before ++ comment :: after).map kindAndText) = true :=
    (Option.any_eq_true _ _).mp (by decide +kernel)
  rw [Bool.and_eq_true, decide_eq_true_eq, decide_eq_true_eq] at hnode
  have hiff := (params_kept_iff (t := comment) rfl before after).2.2 hread hnode.1 hread'
    (of_decide_eq_true htokens')
  refine ⟨node, node', d, d', hread, hread', hnode.2, fun heq => ?_⟩
  exact absurd (hiff.mp heq) (by decide +kernel)

end Script

end SourceView
