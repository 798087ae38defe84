import MessageSchema.Proofs.Beginnings
import MessageSchema.Proofs.Parts
import MessageSchema.Proofs.Reports

/-!
# Missing names

A name that is missing is found twice. The grammar reports it in front of the token that
is ahead when it looks for the name. The document, which is read from the finished tree,
has an empty name where the child behind the keyword starts. Whatever comes next, that
child starts at the token that was ahead: it is the token itself, a node that begins with
it, or an empty node in front of it. And the reader has just taken the keyword, so the
report is never held back.

Every rule keeps the account: the names that are lacking in what it gathers are the names
that it reports, in the same order.
-/

namespace MessageSchema

/-! ## Nodes that lack a name -/

/-- The keyword behind which the name of a node is written. -/
def NodeKind.nameWord? : NodeKind → Option Keyword
  | .importing => some .importing
  | .message => some .message
  | .field => some .field
  | .enum => some .enum
  | .document | .variant | .typeRef | .error => none

/-- What the grammar calls the name of a node. -/
def NodeKind.nameLabel : NodeKind → String
  | .importing => "import name"
  | .message => "message name"
  | .field => "field name"
  | .enum => "enum name"
  | .document | .variant | .typeRef | .error => ""

/-- Whether a keyword stands right below a node and no identifier behind it. -/
def Node.lacksNameBehind (n : Node) (word : Keyword) : Bool :=
  match n.children.dropWhile (!·.isToken (.keyword word)) with
  | [] => false
  | _ :: behind => !behind.head?.any (·.isToken .identifier)

/-- Whether a node should name something and does not. -/
def Node.lacksName (n : Node) : Bool :=
  match n.kind with
  | .importing => !n.tokens.any fun t => t.kind == .string || t.kind == .identifier
  | .message => n.lacksNameBehind .message
  | .field => n.lacksNameBehind .field
  | .enum => n.lacksNameBehind .enum
  | .document | .variant | .typeRef | .error => false

/-- The report of the name that a node lacks. -/
def Node.missingName? (n : Node) : Option Diagnostic :=
  if n.lacksName then
    n.kind.nameWord?.map fun word =>
      ⟨.missingName n.kind.nameLabel, n.placeAfter (.keyword word)⟩
  else none

/-- A node that lacks its name reports it at the place behind its keyword. -/
theorem Node.missingName?_of_lacks {n : Node} {word : Keyword} (lacks : n.lacksName = true)
    (named : n.kind.nameWord? = some word) :
    n.missingName? = some ⟨.missingName n.kind.nameLabel, n.placeAfter (.keyword word)⟩ := by
  rw [missingName?, if_pos lacks, named]
  rfl

/-- Every node that can lack a name has a keyword in front of it. -/
theorem Node.isSome_missingName? (n : Node) : n.missingName?.isSome = n.lacksName := by
  rw [missingName?]
  split
  · next lacks =>
    rw [lacks, Option.isSome_map]
    rw [lacksName] at lacks
    cases kind : n.kind <;> rw [kind] at lacks <;> first | rfl | cases lacks
  · next named => simpa using named

/-- Whether a problem is that of a missing name. -/
def Problem.isMissingName : Problem → Bool
  | .missingName _ => true
  | _ => false

/-! ## The name that is read where one is missing -/

/-- Tokens of other kinds stay of other kinds as children of a node. -/
theorem Element.isToken_of_tokens {kind : TokenKind} {tokens : List Token}
    (other : ∀ t ∈ tokens, t.kind ≠ kind) :
    ∀ e ∈ tokens.map Element.token, e.isToken kind = false := by
  intro e member
  obtain ⟨t, among, rfl⟩ := List.mem_map.mp member
  exact decide_eq_false (other t among)

/-- A modifier is not the keyword of a field. -/
theorem TokenKind.ne_field_of_isModifier {kind : TokenKind} (modifier : kind.isModifier = true) :
    kind ≠ .keyword .field := by
  rintro rfl
  cases modifier

namespace Node

variable {n : Node} {word : Keyword}

/-- Where no identifier stands behind the keyword, the name that is read is empty, and its place
is the one behind the keyword. -/
theorem nameAfter_of_missing {before rest : List Token} {keyword : Token}
    (split : n.tokens = before ++ keyword :: rest) (first : ∀ t ∈ before, t.kind ≠ .keyword word)
    (found : keyword.kind = .keyword word) (missing : ∀ t ∈ rest.head?, t.kind ≠ .identifier) :
    n.nameAfter word = ⟨"", n.placeAfter (.keyword word)⟩ := by
  have behind : n.tokenAfter? (.keyword word) = rest.head? :=
    tokenAfter?_of_split split first found
  rw [nameAfter, behind]
  split
  · next t next => exact if_neg (missing t next)
  · rfl

/-- What stands behind the first keyword of a node decides whether it lacks a name. -/
theorem lacksNameBehind_of_split {before : List Token} {keyword : Token} {behind : List Element}
    (split : n.children = before.map .token ++ .token keyword :: behind)
    (first : ∀ t ∈ before, t.kind ≠ .keyword word) (found : keyword.kind = .keyword word) :
    n.lacksNameBehind word = !behind.head?.any (·.isToken .identifier) := by
  have skipped : n.children.dropWhile (!·.isToken (.keyword word)) = .token keyword :: behind := by
    rw [split, List.dropWhile_append_of_pos, List.dropWhile_cons_of_neg]
    · simpa [Element.isToken, Element.token?] using found
    · simpa using Element.isToken_of_tokens first
  rw [lacksNameBehind, skipped]

/-- A node without the keyword does not lack a name behind it. -/
theorem lacksNameBehind_of_absent (absent : ∀ e ∈ n.children, e.isToken (.keyword word) = false) :
    n.lacksNameBehind word = false := by
  have skipped : n.children.dropWhile (!·.isToken (.keyword word)) = [] :=
    List.dropWhile_eq_nil_iff.mpr (by simpa using absent)
  rw [lacksNameBehind, skipped]

/-- Without a text or an identifier, only dots are left of what an import names, and dots
at the end do not count. -/
theorem importName_of_missing
    (missing : ∀ t ∈ n.tokens, t.kind ≠ .string ∧ t.kind ≠ .identifier) :
    n.importName = ⟨"", n.placeAfter (.keyword .importing)⟩ := by
  have empty : n.importTarget = [] := by
    rw [importTarget, List.reverse_eq_nil_iff, List.dropWhile_eq_nil_iff]
    intro t member
    obtain ⟨among, target⟩ := List.mem_filter.mp (List.mem_reverse.mp member)
    obtain ⟨notString, notName⟩ := missing t among
    simpa [isTargetKind, notString, notName] using target
  rw [importName, empty]

end Node

namespace Shape

variable {children : List Element}

/-- An ending does not begin with an identifier: its first token is an equals sign or the
semicolon. -/
theorem Ending.first_ne (ending : Ending children) :
    ∀ t ∈ (children.filterMap Element.token?).head?, t.kind ≠ .identifier := by
  cases ending with
  | plain closed => cases closed <;> simp_all [Element.token?]
  | number mark number closed => simp [Element.token?, mark]
  | broken mark error => simp [Element.token?, mark]

/-- No detail of a field begins like a name. -/
theorem Detail.first_ne (detail : Detail children) :
    ∀ t ∈ (children.filterMap Element.token?).head?, t.kind ≠ .identifier := by
  cases detail with
  | untyped ending => exact ending.first_ne
  | typed mark kind ending => simp [Element.token?, mark]
  | broken mark error => simp [Element.token?, mark]

/-- The tokens among the items of a block are no identifiers. Each item is a node, so all that
is left is the closing brace. -/
theorem Items.tokens_ne {item : NodeKind} (items : Items item children) :
    ∀ t ∈ children.filterMap Element.token?, t.kind ≠ .identifier := by
  induction items with
  | unclosed => exact List.forall_mem_nil _
  | closed mark => simp [Element.token?, mark]
  | item kind items ih => simpa [Element.token?] using ih

/-- The same for a whole body with its opening brace, or without it where that is missing. -/
theorem Body.tokens_ne {item : NodeKind} (body : Body item children) :
    ∀ t ∈ children.filterMap Element.token?, t.kind ≠ .identifier := by
  cases body with
  | opened mark items => simpa [Element.token?, mark] using items.tokens_ne
  | unopened items => exact items.tokens_ne
  | skipped error => simp [Element.token?]

end Shape

/-- A dotted name begins with a name. -/
theorem Shape.Dotted.exists_name {complete : Bool} {tokens : List Token}
    (dotted : Dotted complete tokens) : ∃ t ∈ tokens, t.kind = .identifier := by
  cases dotted with
  | name identifier => exact ⟨_, List.mem_cons_self, identifier⟩
  | dangling identifier mark => exact ⟨_, List.mem_cons_self, identifier⟩
  | more identifier mark later => exact ⟨_, List.mem_cons_self, identifier⟩

namespace Node

variable {n : Node}

/-- A block that lacks its name is read with an empty name at the place behind the keyword. By
its shape such a block has only its body behind the keyword, and no identifier stands right
below it there. -/
theorem nameAfter_of_block {word : Keyword} {item : NodeKind}
    (block : Shape.Block word item n.children) (lacks : n.lacksNameBehind word = true) :
    n.nameAfter word = ⟨"", n.placeAfter (.keyword word)⟩ := by
  generalize split : n.children = children at block
  cases block with
  | @named keyword name rest isKeyword identifier body =>
    have behind : n.children = [].map .token ++ .token keyword :: .token name :: rest := split
    rw [lacksNameBehind_of_split behind (List.forall_mem_nil _) isKeyword] at lacks
    simp [Element.isToken, Element.token?, identifier] at lacks
  | @unnamed keyword rest isKeyword body =>
    have tokens : n.tokens = [] ++ keyword :: rest.filterMap Element.token? := by
      rw [Node.tokens, split]
      rfl
    refine nameAfter_of_missing tokens (List.forall_mem_nil _) isKeyword ?_
    exact fun t first => body.tokens_ne t (List.mem_of_mem_head? first)

/-- A field that lacks its name is read with an empty name at the place behind the keyword. A
field that broke off before the keyword lacks no name, as far as this goes. -/
theorem nameAfter_of_field (field : Shape.Field n.children)
    (lacks : n.lacksNameBehind .field = true) :
    n.nameAfter .field = ⟨"", n.placeAfter (.keyword .field)⟩ := by
  generalize split : n.children = children at field
  obtain @⟨modifiers, _, qualifies, unmodified⟩ := field
  have first : ∀ t ∈ modifiers, t.kind ≠ .keyword .field :=
    fun t member => TokenKind.ne_field_of_isModifier (qualifies t member)
  cases unmodified with
  | named word identifier detail =>
    rw [lacksNameBehind_of_split split first word] at lacks
    simp [Element.isToken, Element.token?, identifier] at lacks
  | @unnamed keyword rest word detail =>
    have tokens : n.tokens = modifiers ++ keyword :: rest.filterMap Element.token? := by
      rw [Node.tokens, split, List.filterMap_append, List.filterMap_map]
      simp only [Function.comp_def, Element.token?, List.filterMap_some]
      rfl
    exact nameAfter_of_missing tokens first word detail.first_ne
  | broken error =>
    rw [lacksNameBehind_of_absent] at lacks
    · cases lacks
    · rw [split, List.forall_mem_append]
      exact ⟨Element.isToken_of_tokens first, List.forall_mem_singleton.mpr rfl⟩

/-- A node that lacks a name gives a part with an empty one, where the report stands.

Proof: by the kind of the node. By its shape, a node without a name has nothing behind its
keyword that a name could be read from. -/
theorem Gathered.name_of_missing (gathered : n.Gathered) {d : Diagnostic}
    (missing : n.missingName? = some d) :
    d.problem = .missingName n.kind.nameLabel ∧ n.part?.bind Part.name? = some ⟨"", d.span⟩ := by
  have lacks : n.lacksName = true := by
    by_contra named
    rw [missingName?, if_neg named] at missing
    cases missing
  have shape (built : n.kind ≠ .error) : Shape.Of n.kind n.children :=
    gathered.inShape fun error => absurd error built
  rw [missingName?, if_pos lacks] at missing
  rw [lacksName] at lacks
  rw [part?]
  cases kind : n.kind <;> rw [kind] at missing lacks shape <;> cases missing
  · have none_named : ∀ t ∈ n.tokens, t.kind ≠ .string ∧ t.kind ≠ .identifier := by
      simpa using lacks
    simp [Part.name?, toImport, importName_of_missing none_named]
  · have name := nameAfter_of_block (shape (by decide)) lacks
    simp [Part.name?, toMessage, name]
  · have name := nameAfter_of_field (shape (by decide)) lacks
    simp [Part.name?, toField, name]
  · have name := nameAfter_of_block (shape (by decide)) lacks
    simp [Part.name?, toEnum, name]

end Node

/-! ## What the rules report -/

/-- The reports of missing names. -/
def ParseState.missed (s : ParseState) : List Diagnostic :=
  s.reports.filter (·.problem.isMissingName)

/-- Of what was gathered from one state to another, all names that are lacking were
reported, and no others. -/
def ParseState.Told (s after : ParseState) : Prop :=
  ∃ added, after.children = s.children ++ added
    ∧ after.missed = s.missed ++ (Element.preorderOf added).filterMap Node.missingName?

namespace ParseState

namespace Told

variable {s middle after : ParseState}

/-- Where nothing happens, the account stays as it is. -/
theorem refl (s : ParseState) : Told s s :=
  ⟨[], (List.append_nil _).symm, (List.append_nil _).symm⟩

/-- Accounts add up: what two steps gather is gathered one after the other, and so is what they
report. -/
theorem trans (first : Told s middle) (second : Told middle after) : Told s after := by
  obtain ⟨early, gathered, told⟩ := first
  obtain ⟨late, further, more⟩ := second
  refine ⟨early ++ late, by rw [further, gathered, List.append_assoc], ?_⟩
  rw [more, told, Element.preorderOf_append, List.filterMap_append, List.append_assoc]

/-- Tokens lack no names. A step that gathers tokens and reports nothing keeps the account. -/
theorem of_tokens {tokens : List Token}
    (children : after.children = s.children ++ tokens.map .token)
    (reports : after.reports = s.reports) : Told s after := by
  refine ⟨_, children, ?_⟩
  rw [missed, missed, reports, Element.preorderOf_tokens]
  exact (List.append_nil _).symm

/-- Taking a token keeps the account. -/
theorem take (s : ParseState) : Told s s.take := by
  cases ahead : s.pending with
  | nil =>
    have same : s.take = s := by rw [ParseState.take, ahead]
    rw [same]
    exact refl s
  | cons t rest =>
    have taken : s.take = { s.append [.token t] with pending := rest, silent := false } := by
      simp [ParseState.take, ahead]
    have children : s.take.children = s.children ++ [t].map .token := by
      rw [taken]
      rfl
    refine of_tokens children ?_
    rw [taken]
    rfl

/-- Taking tokens while they are of some kind keeps the account. -/
theorem takeWhile (p : TokenKind → Bool) (s : ParseState) : Told s (s.takeWhile p) :=
  of_tokens rfl rfl

/-- No other problem is a missing name. -/
theorem unexpected (s : ParseState) (expected : String) : Told s (s.unexpected expected) := by
  refine ⟨[], ?_, ?_⟩
  · rw [List.append_nil]
    exact report_children _ _ _
  · rw [missed, missed, ParseState.unexpected]
    rcases Run.report_reports s (.unexpectedToken expected s.current.describe) s.current.span with
      same | more
    · rw [same]
      exact (List.append_nil _).symm
    · rw [more, List.filter_append]
      rfl

/-- What is skipped has no name to lack. -/
theorem of_skipped {skipped : List Token} {place : Span}
    (children : after.children
      = s.children ++ [.node (Node.covering .error (skipped.map .token) place)])
    (reports : after.reports = s.reports) : Told s after := by
  refine ⟨_, children, ?_⟩
  rw [missed, missed, reports, ← List.nil_append [_], Element.preorderOf_concat,
    Element.preorder_covering, Element.preorderOf_tokens]
  exact (List.append_nil _).symm

/-- Skipping keeps the account: what was skipped lacks no name, and skipping reports nothing. -/
theorem recover (stops : TokenKind → Bool) (s : ParseState) : Told s (s.recover stops) :=
  of_skipped rfl rfl

/-- A broken type ends in an `error` node over nothing. -/
theorem mark (s : ParseState) : Told s (s.append [.node (Node.covering .error [] s.here)]) :=
  @of_skipped s _ [] _ rfl rfl

/-- To report something unexpected and to skip keeps the account, since no name is what was
expected. -/
theorem skip (stops : TokenKind → Bool) (expected : String) (s : ParseState) :
    Told s ((s.unexpected expected).recover stops) :=
  (unexpected s expected).trans (recover stops _)

/-- A dotted name keeps the account, whether it is complete or not. -/
theorem dotted (s : ParseState) : Told s s.dotted.2 := by
  refine (take s).trans ?_
  have taken : Told s.take { s.take.append ((dottedTail s.take.pending).taken.map .token) with
      pending := (dottedTail s.take.pending).left } := of_tokens rfl rfl
  simp only [ParseState.dotted]
  split
  · exact taken
  · exact taken.trans (unexpected _ _)

/-- A node is told if what is lacking in it and below it was reported while its children
were gathered. -/
theorem of_node {kind : NodeKind} {rule : ParseState → ParseState}
    (built : rule { s with children := [] } = after)
    (told : after.missed = s.missed
      ++ (Node.covering kind after.children s.here).missingName?.toList
      ++ (Element.preorderOf after.children).filterMap Node.missingName?) :
    Told s (s.node kind rule) := by
  subst built
  refine ⟨_, rfl, ?_⟩
  have reports : (s.node kind rule).missed = (rule { s with children := [] }).missed := rfl
  rw [← List.nil_append [_], Element.preorderOf_concat, Element.preorder_covering, reports, told,
    List.append_assoc]
  show _ = _ ++ List.filterMap _ (_ :: _)
  rw [List.filterMap_cons]
  cases (Node.covering kind (rule { s with children := [] }).children s.here).missingName? <;> rfl

/-- A node that lacks no name. -/
theorem named {kind : NodeKind} {rule : ParseState → ParseState}
    (built : rule { s with children := [] } = after) (below : Told { s with children := [] } after)
    (named : (Node.covering kind after.children s.here).lacksName = false) :
    Told s (s.node kind rule) := by
  obtain ⟨added, children, told⟩ := below
  have same : added = after.children := children.symm
  have nothing : (Node.covering kind after.children s.here).missingName? = none := by
    rw [Node.missingName?, named]
    rfl
  refine of_node built ?_
  rw [nothing, told, same]
  exact congrArg (· ++ _) (List.append_nil _).symm

end Told

/-- The reader of a new node of a kind has come to where the name should be: the keyword of
the node is taken, with nothing but other tokens before it. -/
structure Expects (s : ParseState) (kind : NodeKind) (word : Keyword) (middle : ParseState) :
    Prop where
  named : kind.nameWord? = some word
  told : Told { s with children := [] } middle
  gathered : ∃ before keyword, middle.children = (before ++ [keyword]).map .token
    ∧ (∀ t ∈ before, t.kind ≠ .keyword word) ∧ keyword.kind = .keyword word
  laid : ∃ low high, middle.Laid low high
  awake : middle.silent = false

/-- A name that is found missing is reported, and the node goes on where it was missing.

Proof: the report of the missing name comes before those made further on, as the node comes
before what is below it. What is gathered next begins at the token ahead and is no name, so the
node lacks its name there, and the place of the report is the start of that child. -/
theorem Expects.unnamed {s middle after : ParseState} {kind : NodeKind} {word : Keyword}
    {rule : ParseState → ParseState} (expects : s.Expects kind word middle)
    (built : rule { s with children := [] } = after)
    (run : Run (middle.missing kind.nameLabel) after)
    (behind : Told (middle.missing kind.nameLabel) after)
    (more : after.children ≠ middle.children)
    (lacks : ∀ e rest, after.children = middle.children ++ e :: rest → middle.BeginsWith e →
      (Node.covering kind after.children s.here).lacksName = true) :
    Told s (s.node kind rule) := by
  obtain ⟨early, children, told⟩ := expects.told
  obtain ⟨before, keyword, gathered, first, found⟩ := expects.gathered
  obtain ⟨low, high, laid⟩ := expects.laid
  obtain ⟨late, further, later⟩ := behind
  have kept : (middle.missing kind.nameLabel).children = middle.children := report_children _ _ _
  have pending : (middle.missing kind.nameLabel).pending = middle.pending := report_pending _ _ _
  have last : (middle.missing kind.nameLabel).last = middle.last := Run.report_last _ _ _
  have reported : (middle.missing kind.nameLabel).missed
      = middle.missed ++ [⟨.missingName kind.nameLabel, middle.here⟩] := by
    rw [missed, missed, ParseState.missing, report, expects.awake]
    simp [List.filter_append, Problem.isMissingName]
  have unchanged : middle.missed = s.missed := by
    rw [told, show early = (before ++ [keyword]).map .token from children.symm.trans gathered,
      Element.preorderOf_tokens]
    exact List.append_nil _
  -- What is gathered next begins at the token that is no name.
  rcases run.begins (laid.report _ _) with ⟨nothing, -⟩ | ⟨e, rest, next, begins⟩
  · exact absurd (nothing.trans kept) more
  · rw [kept] at next further
    have begun : middle.BeginsWith e := begins.of_pending pending last
    have place : (Node.covering kind after.children s.here).placeAfter (.keyword word)
        = middle.here := by
      have split : (Node.covering kind after.children s.here).children
          = before.map .token ++ .token keyword :: e :: rest := by
        rw [Node.covering, next, gathered]
        simp
      rw [← begun.place]
      exact Node.placeAfter_of_split split (Element.isToken_of_tokens first) found
    have own : (Node.covering kind after.children s.here).missingName?
        = some ⟨.missingName kind.nameLabel, middle.here⟩ := by
      rw [Node.missingName?_of_lacks (lacks e rest next begun) expects.named, place]
      rfl
    refine Told.of_node built ?_
    rw [own, later, reported, unchanged, further, gathered, Element.preorderOf_append,
      Element.preorderOf_tokens]
    rfl

end ParseState

namespace Rule

open ParseState

variable {s : ParseState} {low high : Nat}

/-- The end of a statement keeps the account. -/
theorem semicolon_told (stops : TokenKind → Bool) (s : ParseState) :
    Told s (semicolon stops s) := by
  unfold semicolon
  split
  · exact .take s
  · exact .skip stops _ s

/-- A number and the end of a statement keep the account. -/
theorem numberAndSemicolon_told (what : String) (stops : TokenKind → Bool) (s : ParseState) :
    Told s (numberAndSemicolon what stops s) := by
  unfold numberAndSemicolon
  split
  · refine (Told.take s).trans ?_
    split
    · exact (Told.take _).trans (semicolon_told stops _)
    · exact .skip stops what _
  · exact semicolon_told stops s

/-- A type has no name of its own. -/
theorem typeRef_told (s : ParseState) : Told s (s.node .typeRef typeRef) := by
  refine Told.named rfl ?_ rfl
  simp only [typeRef]
  split
  · exact .dotted _
  · exact (Told.dotted _).trans (Told.mark _)

/-- What stands behind the name of a field keeps the account. -/
theorem fieldDetail_told (s : ParseState) : Told s (fieldDetail s) := by
  unfold fieldDetail
  split
  · refine (Told.take s).trans ?_
    split
    · exact (typeRef_told _).trans (numberAndSemicolon_told _ _ _)
    · exact .skip _ _ _
  · exact numberAndSemicolon_told _ _ s

/-- A variant is read only where its name is. -/
theorem variant_told (s : ParseState) : Told s (s.node .variant variant) :=
  Told.named rfl ((Told.take _).trans (numberAndSemicolon_told _ _ _)) rfl

/-- The token that is taken, and that the reader is awake behind it. -/
theorem exists_taken {kind : TokenKind} (here : s.kind = kind) (notEnd : kind ≠ .eof) :
    ∃ t : Token, t.kind = kind ∧ s.take.children = s.children ++ [.token t]
      ∧ s.take.silent = false := by
  obtain ⟨t, same, children⟩ := take_children here notEnd
  exact ⟨t, same, children, take_silent (pending_ne_nil here notEnd)⟩

/-- Below a new node everything begins with the token ahead. -/
theorem laid_opened (laid : s.Laid low high) :
    ({ s with children := [] } : ParseState).Laid s.current.span.start high :=
  ⟨Nat.le_refl _, laid.ahead, fun _ member => absurd member List.not_mem_nil⟩

/-- Behind the keyword with which a node begins, its name is expected. -/
theorem expects_of_keyword {kind : NodeKind} {word : Keyword} (laid : s.Laid low high)
    (here : s.kind = .keyword word) (named : kind.nameWord? = some word) :
    s.Expects kind word { s with children := [] }.take := by
  let opened : ParseState := { s with children := [] }
  obtain ⟨keyword, found, children, awake⟩ := exists_taken (s := opened) here nofun
  exact ⟨named, .take opened, ⟨[], keyword, children, List.forall_mem_nil _, found⟩,
    ⟨_, _, (Run.take opened).laid (laid_opened laid)⟩, awake⟩

/-- An import with a string or an identifier right below it does not lack its name. -/
theorem lacksName_import {n : Node} {t : Token} (kind : n.kind = .importing)
    (member : .token t ∈ n.children) (names : t.kind = .string ∨ t.kind = .identifier) :
    n.lacksName = false := by
  have named : n.tokens.any (fun t => t.kind == .string || t.kind == .identifier) = true := by
    refine List.any_eq_true.mpr ⟨t, List.mem_filterMap.mpr ⟨_, member, rfl⟩, ?_⟩
    simpa using names
  rw [Node.lacksName, kind]
  simp only [named, Bool.not_true]

/-- The rule for imports keeps the account. Behind the keyword it finds a string or an
identifier, which is then below the node; or it finds neither, and the report it makes is the
one of the name that the node lacks. -/
theorem importing_told (laid : s.Laid low high) (here : s.kind = .keyword .importing) :
    Told s (s.node .importing importing) := by
  let opened : ParseState := { s with children := [] }
  have expects : s.Expects .importing .importing opened.take := expects_of_keyword laid here rfl
  by_cases quoted : opened.take.kind = .string
  · have built : importing opened = semicolon declarationStops opened.take.take := if_pos quoted
    obtain ⟨literal, kind, added⟩ := take_children quoted (by decide)
    obtain ⟨others, later⟩ := Run.children_prefix (semicolon_run declarationStops opened.take.take)
    refine Told.named built (expects.told.trans ((Told.take _).trans (semicolon_told _ _))) ?_
    refine lacksName_import rfl (t := literal) ?_ (.inl kind)
    show _ ∈ (semicolon declarationStops opened.take.take).children
    rw [← later, added]
    simp
  by_cases name : opened.take.kind = .identifier
  · have rest : Run opened.take.dotted.2 (importing opened)
        ∧ Told opened.take.dotted.2 (importing opened) := by
      simp only [importing, if_neg quoted, if_pos name]
      split
      · exact ⟨semicolon_run _ _, semicolon_told _ _⟩
      · exact ⟨.recover _ _, .recover _ _⟩
    obtain ⟨_, added, names, dotted, rfl⟩ := dotted_gathers name
    obtain ⟨first, among, kind⟩ := dotted.exists_name
    obtain ⟨others, later⟩ := Run.children_prefix rest.1
    refine Told.named rfl (expects.told.trans ((Told.dotted _).trans rest.2)) ?_
    refine lacksName_import rfl (t := first) ?_ (.inr kind)
    show _ ∈ (importing opened).children
    rw [← later, added]
    exact List.mem_append_left _ (List.mem_append_right _ (List.mem_map_of_mem among))
  · have built : importing opened
        = semicolon declarationStops (opened.take.missing "import name") := by
      simp only [importing, if_neg quoted, if_neg name]
    obtain ⟨keyword, word, children⟩ := take_children (s := opened) here (by decide)
    obtain ⟨added, ended, closed⟩ :=
      semicolon_gathers declarationStops (opened.take.missing "import name")
    rw [ParseState.missing, report_children] at ended
    refine expects.unnamed built (semicolon_run _ _) (semicolon_told _ _) ?_ ?_
    · show (semicolon _ (opened.take.report _ _)).children ≠ _
      rw [ended]
      cases closed <;> simp
    · -- Behind the keyword stands the end of the statement, which names nothing.
      intro e rest _ _
      show (Node.covering _ (semicolon _ (opened.take.report _ _)).children _).lacksName = true
      rw [Node.covering, ended, children]
      cases closed with
      | semicolon mark => simp [opened, Node.lacksName, Node.tokens, Element.token?, word, mark]
      | skipped error => simp [opened, Node.lacksName, Node.tokens, Element.token?, word]

/-- A node with its name behind its keyword, or without.

Proof: if an identifier is ahead, it is taken and the node has its name; otherwise the name is
reported, and the node lacks it. -/
theorem name_told {kind : NodeKind} {rule : ParseState → ParseState} {word : Keyword}
    {middle after : ParseState} (expects : s.Expects kind word middle)
    (built : rule { s with children := [] } = after)
    (lacks : ∀ n : Node, n.kind = kind → n.lacksName = n.lacksNameBehind word)
    (run : Run (name kind.nameLabel middle) after)
    (behind : Told (name kind.nameLabel middle) after)
    (more : after.children ≠ (name kind.nameLabel middle).children) :
    Told s (s.node kind rule) := by
  obtain ⟨before, keyword, gathered, first, found⟩ := expects.gathered
  have split {others : List Element} (children : after.children = middle.children ++ others) :
      (Node.covering kind after.children s.here).lacksName
        = !others.head?.any (·.isToken .identifier) := by
    rw [lacks _ rfl]
    refine Node.lacksNameBehind_of_split ?_ first found
    rw [Node.covering, children, gathered]
    simp
  by_cases here : middle.kind = .identifier
  · rw [name, if_pos here] at run behind
    obtain ⟨identifier, same, taken⟩ := take_children here (by decide)
    obtain ⟨others, later⟩ := run.children_prefix
    rw [taken, List.append_assoc] at later
    refine Told.named built (expects.told.trans ((Told.take middle).trans behind)) ?_
    rw [split later.symm]
    simp [Element.isToken, Element.token?, same]
  · rw [name, if_neg here] at run behind more
    rw [ParseState.missing, report_children] at more
    refine expects.unnamed built run behind more ?_
    intro e rest next begins
    rw [split next]
    cases e with
    | token t =>
      have other : t.kind ≠ .identifier := begins.token t rfl ▸ here
      simp [Element.isToken, Element.token?, other]
    | node n => rfl

/-- What stands behind the name of a field is never empty: there is at least a semicolon or what
was skipped in its place. -/
theorem fieldDetail_gathers_some (s : ParseState) : (fieldDetail s).children ≠ s.children := by
  obtain ⟨added, children, detail⟩ := fieldDetail_gathers s
  have some_added : added ≠ [] := by
    cases detail with
    | untyped ending =>
      cases ending with
      | plain closed => cases closed <;> exact List.cons_ne_nil _ _
      | number mark number closed => exact List.cons_ne_nil _ _
      | broken mark error => exact List.cons_ne_nil _ _
    | typed mark kind ending => exact List.cons_ne_nil _ _
    | broken mark error => exact List.cons_ne_nil _ _
  rw [children]
  simpa using some_added

/-- A field lacks its name only behind its own keyword.

Proof: the modifiers lack no names. At the keyword a name is found or reported, and without the
keyword all is skipped, so that the node does not lack a name behind a keyword it has not. -/
theorem field_told (laid : s.Laid low high) : Told s (s.node .field field) := by
  let opened : ParseState := { s with children := [] }
  let unmodified := opened.takeWhile TokenKind.isModifier
  let modifiers := s.pending.takeWhile (TokenKind.isModifier ·.kind)
  have gathered : unmodified.children = modifiers.map .token := List.nil_append _
  have first : ∀ t ∈ modifiers, t.kind ≠ .keyword .field := by
    intro t member
    apply TokenKind.ne_field_of_isModifier
    exact List.mem_takeWhile_imp (p := fun t : Token => t.kind.isModifier) member
  have taken : Told opened unmodified := .takeWhile _ opened
  by_cases here : unmodified.kind = .keyword .field
  · obtain ⟨keyword, word, children, awake⟩ := exists_taken here (by decide)
    have headed : unmodified.take.children = (modifiers ++ [keyword]).map .token := by
      rw [children, gathered]
      simp
    have run : Run opened unmodified.take := (Run.takeWhile _ opened).trans (.take _)
    have built : field opened = fieldDetail (name "field name" unmodified.take) := if_pos here
    have expects : s.Expects .field .field unmodified.take :=
      ⟨rfl, taken.trans (.take _), ⟨modifiers, keyword, headed, first, word⟩,
        ⟨_, _, run.laid (laid_opened laid)⟩, awake⟩
    refine name_told expects built ?_
      (fieldDetail_run _) (fieldDetail_told _) (fieldDetail_gathers_some _)
    intro n kind
    rw [Node.lacksName, kind]
  · have built : field opened
        = (unmodified.unexpected (TokenKind.describe (.keyword .field))).recover fieldStops :=
      if_neg here
    obtain ⟨error, isError, children⟩ :=
      recover_children fieldStops (TokenKind.describe (.keyword .field)) unmodified
    refine Told.named built (taken.trans (.skip _ _ _)) ?_
    show Node.lacksNameBehind _ .field = false
    apply Node.lacksNameBehind_of_absent
    rw [Node.covering, children, gathered, List.forall_mem_append]
    exact ⟨Element.isToken_of_tokens first, List.forall_mem_singleton.mpr rfl⟩

/-- The items of a body tell what they lack, and a body begins unopened only with one. -/
structure Body.Tells (body : Body) : Prop extends body.Runs where
  told : ∀ {s : ParseState} {low high : Nat}, s.Laid low high →
    Told s (s.node body.itemKind body.item)
  unopened : ∀ kind, body.startsUnopened kind = true → body.starts kind = true
  notEnd : body.starts .eof = false

/-- The body of a message keeps the account, field by field. -/
theorem messageBody_tells : messageBody.Tells where
  toRuns := messageBody_runs
  told := field_told
  unopened _ starts := starts
  notEnd := rfl

/-- The body of an enum keeps the account. A variant begins with its name, so it never lacks
it. -/
theorem enumBody_tells : enumBody.Tells where
  toRuns := enumBody_runs
  told _ := variant_told _
  unopened _ starts := Bool.noConfusion starts
  notEnd := rfl

/-- A body keeps the account, by induction on what it reads: items keep it, and so does
everything that is reported or skipped between them. -/
theorem Body.Tells.items_told {body : Body} (tells : body.Tells) (laid : s.Laid low high) :
    Told s (body.items s) := by
  fun_induction Body.items body s with
  | case1 s ahead => exact .unexpected s _
  | case2 s t rest ahead brace => exact .take s
  | case3 s t rest ahead notBrace starts _ ih =>
    have here : s.kind = t.kind := by rw [ParseState.kind, ahead]
    have run : Run s (s.node body.itemKind body.item) :=
      .node (tells.builds _ (here ▸ starts)) (tells.item _)
    exact (tells.told laid).trans (ih (run.laid laid))
  | case4 s t rest ahead notBrace notItem declaration => exact .unexpected s _
  | case5 s t rest ahead notBrace notItem notDeclaration _ ih =>
    have run : Run s ((s.unexpected body.expected).recover body.stops) :=
      (Run.unexpected s _).trans (.recover _ _)
    exact (Told.skip _ _ s).trans (ih (run.laid laid))

/-- Where an item or the closing brace is ahead, the items gather something. -/
theorem Body.Tells.items_gathers_some {body : Body} (tells : body.Tells)
    (ahead : s.kind = .punct .rightBrace ∨ body.starts s.kind = true) :
    (body.items s).children ≠ s.children := by
  have notEnd : s.kind ≠ .eof := by
    intro isEnd
    rw [isEnd, tells.notEnd] at ahead
    simp at ahead
  obtain ⟨t, rest, pending⟩ := List.exists_cons_of_ne_nil (pending_ne_nil rfl notEnd)
  have here : s.kind = t.kind := by rw [ParseState.kind, pending]
  rw [here] at ahead
  by_cases brace : t.kind = .punct .rightBrace
  · rw [Body.items_brace pending brace]
    simp [ParseState.take, pending, ParseState.append]
  · rw [Body.items_item pending brace (ahead.resolve_left brace)]
    obtain ⟨others, later⟩ :=
      Run.children_prefix (tells.toRuns.items_run (s.node body.itemKind body.item))
    rw [← later]
    simp [ParseState.node]

/-- A block behind its name tells what its items lack. -/
theorem Body.Tells.block_told_named {body : Body} (tells : body.Tells) {what : String}
    (laid : (name what s.take).Laid low high) : Told (name what s.take) (block what body s) := by
  simp only [block]
  split
  · exact (Told.take _).trans (tells.items_told ((Run.take _).laid laid))
  · refine (Told.unexpected _ (TokenKind.describe (.punct .leftBrace))).trans ?_
    split
    · exact tells.items_told ((Run.unexpected _ _).laid laid)
    · exact .recover _ _

/-- Behind the place of its name a block gathers something: a brace, an item, or what was
skipped. So a missing name has a child to be placed at. -/
theorem Body.Tells.block_gathers_some {body : Body} (tells : body.Tells) (what : String)
    (s : ParseState) : (block what body s).children ≠ (name what s.take).children := by
  simp only [block]
  split
  · next brace =>
    obtain ⟨t, -, taken⟩ := take_children brace (by decide)
    obtain ⟨others, later⟩ :=
      Run.children_prefix (tells.toRuns.items_run (name what s.take).take)
    rw [← later, taken]
    simp
  · let reported := (name what s.take).unexpected (TokenKind.describe (.punct .leftBrace))
    have children : reported.children = (name what s.take).children := report_children _ _ _
    have kind : reported.kind = (name what s.take).kind := by
      rw [ParseState.kind, ParseState.kind, unexpected_pending]
    split
    · next begins =>
      rw [← children]
      refine tells.items_gathers_some ?_
      rw [kind]
      exact (by simpa using begins : _ ∨ _).imp_right (tells.unopened _)
    · show reported.children ++ _ ≠ _
      rw [children]
      simp

/-- A block keeps the account. If its name is missing, the report is made before the body is
read, and the names that the body lacks come after it, as the node comes before its items. -/
theorem Body.Tells.block_told {body : Body} (tells : body.Tells) {kind : NodeKind}
    {word : Keyword} (laid : s.Laid low high) (here : s.kind = .keyword word)
    (named : kind.nameWord? = some word)
    (lacks : ∀ n : Node, n.kind = kind → n.lacksName = n.lacksNameBehind word) :
    Told s (s.node kind (block kind.nameLabel body)) := by
  let opened : ParseState := { s with children := [] }
  have reached := (name_run kind.nameLabel _).laid ((Run.take opened).laid (laid_opened laid))
  exact name_told (expects_of_keyword laid here named) rfl lacks
    (tells.toRuns.block_run_named _ opened) (tells.block_told_named reached)
    (tells.block_gathers_some _ opened)

/-- The rule that a keyword leads to keeps the account. -/
theorem declaration?_told {kind : NodeKind} {rule : ParseState → ParseState}
    (laid : s.Laid low high) (found : declaration? s.kind = some (kind, rule)) :
    Told s (s.node kind rule) := by
  generalize here : s.kind = ahead at found
  unfold declaration? at found
  split at found
  · cases found
    exact importing_told laid here
  · cases found
    refine messageBody_tells.block_told laid here rfl fun n kind => ?_
    rw [Node.lacksName, kind]
  · cases found
    refine enumBody_tells.block_told laid here rfl fun n kind => ?_
    rw [Node.lacksName, kind]
  · cases found

/-- The loop over the declarations tells everything that is lacking. -/
theorem declarations_told (laid : s.Laid low high) : Told s (declarations s) := by
  fun_induction declarations s with
  | case1 s ahead => exact .refl s
  | case2 s t rest ahead kind rule found _ ih =>
    have here : s.kind = t.kind := by rw [ParseState.kind, ahead]
    rw [← here] at found
    have below := (Run.take { s with children := [] }).trans (declaration?_run found _)
    have run : Run s (s.node kind rule) := .node (.declaration found) below
    exact (declaration?_told laid found).trans (ih (run.laid laid))
  | case3 s t rest ahead none_found _ ih =>
    have run : Run s ((s.unexpected expectedDeclaration).recover declarationStops) :=
      (Run.unexpected s _).trans (.recover _ _)
    exact (Told.skip _ _ s).trans (ih (run.laid laid))

end Rule

/-! ## The reports of a source -/

/-- A missing name is a finding of the grammar. -/
theorem Problem.isSyntactic_of_isMissingName {problem : Problem}
    (missing : problem.isMissingName = true) : problem.isSyntactic = true := by
  cases problem <;> first | rfl | exact nomatch missing

/-- The missing names that are reported are the names that the nodes of the tree lack.

Proof: reports of the lexer are about no names, so those about missing names are what the rule
for declarations has added. It keeps the account from the start on. -/
theorem parseSource_missed (source : String) :
    (parseSource source).diagnostics.filter (·.problem.isMissingName)
      = (parseSource source).tree.preorder.filterMap Node.missingName? := by
  have own : ∀ found : List Diagnostic, found.filter (·.problem.isMissingName)
      = (found.filter (·.problem.isSyntactic)).filter (·.problem.isMissingName) := by
    intro found
    rw [List.filter_filter]
    apply List.filter_congr
    intro d _
    cases missing : d.problem.isMissingName with
    | false => rfl
    | true => rw [Problem.isSyntactic_of_isMissingName missing]; rfl
  have silent : (ParseState.start (tokenize source)).missed = [] := by
    apply List.filter_eq_nil_iff.mpr
    intro d member missing
    have lexical := Problem.isSyntactic_of_isLexical (tokenFindings_lexical source d member)
    exact Bool.noConfusion (lexical.symm.trans (Problem.isSyntactic_of_isMissingName missing))
  obtain ⟨added, children, told⟩ := Rule.declarations_told (ParseState.laid_start source).1
  rw [own, parseSource_reports, ← own]
  show (Rule.declarations (.start (tokenize source))).missed = _
  rw [told, silent, parseSource, parse, documentNode, Node.preorder, Element.preorderOf_concat,
    children]
  show _ = List.filterMap _ (Element.preorderOf added ++ [])
  rw [List.append_nil]
  rfl

/-- Two selections from one list correspond if they select the same members and relate them. -/
theorem forall₂_filterMap_filter {α β : Type} {f : α → Option β} {p : α → Bool} {R : β → α → Prop}
    {l : List α} (each : ∀ a ∈ l, (f a).isSome = p a ∧ ∀ b, f a = some b → R b a) :
    List.Forall₂ R (l.filterMap f) (l.filter p) := by
  induction l with
  | nil => exact .nil
  | cons a rest ih =>
    obtain ⟨⟨same, related⟩, later⟩ := List.forall_mem_cons.mp each
    cases found : f a with
    | none =>
      rw [List.filterMap_cons_none found, List.filter_cons_of_neg (by simp [← same, found])]
      exact ih later
    | some b =>
      rw [List.filterMap_cons_some found, List.filter_cons_of_pos (by simp [← same, found])]
      exact .cons (related b found) (ih later)

/-- The grammar and the document agree about missing names. The named parts of the document
of a source are read from the nodes of its tree, in their order. The names that the grammar
reports as missing are, one by one and in the same order, those of the nodes that lack a
name: an import without text or identifier, a message, enum or field with its keyword and
no identifier behind it. The part that is read from such a node has the empty name, at the
place of the report.

Proof: along a run the names that are reported as missing are those that the gathered nodes
lack. For the whole tree this matches them one for one, and the shape of a node that lacks its
name fixes the place at which its part has an empty one. -/
theorem missing_names_agree (source name : String) :
    let tree := (parseSource source).tree
    tree.preorder.filterMap Node.part? = (tree.toDocument name).walk.filter (·.name?.isSome)
      ∧ List.Forall₂
        (fun d n => d.problem = .missingName n.kind.nameLabel
          ∧ n.part?.bind Part.name? = some ⟨"", d.span⟩)
        ((parseSource source).diagnostics.filter (·.problem.isMissingName))
        (tree.preorder.filter Node.lacksName) := by
  intro tree
  refine ⟨(parse_layered _).parts rfl name, ?_⟩
  have gathered : ∀ n ∈ tree.preorder, n.kind ≠ .document → n.Gathered := parse_gathered _
  rw [parseSource_missed]
  apply forall₂_filterMap_filter
  intro n member
  refine ⟨n.isSome_missingName?, fun d missing => (gathered n member ?_).name_of_missing missing⟩
  intro root
  rw [Node.missingName?, Node.lacksName, root] at missing
  cases missing

end MessageSchema
