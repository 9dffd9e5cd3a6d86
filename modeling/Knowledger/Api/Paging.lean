import Knowledger.Dependencies

/-!
# Reading pages of the verified ledger

The lists of the HTTP service are read at one checkpoint, a page at a time.  A cursor carries
the checkpoint, the offset of the next page and the binding of the list (who asks, for what),
and is sealed with a key of the service, so a chain of pages stays on the checkpoint of its
first page (`Pages.enumerates`).
-/

namespace Knowledger.Api

open Js Txn

/-! ## Errors -/

structure ApiError where
  code : String
  message : String
  status : Nat
  retryable : Bool
  deriving DecidableEq

def apiFail {α : Type} (code message : String) (status : Nat) : Except ApiError α :=
  .error ⟨code, message, status, false⟩

/-! ## The ledger -/

/-- A reference of the browse index to a published revision. -/
structure RevisionBrowseRef where
  key : String
  revisionDigest : Digest
  slot : Slot

/-- The verified views of a ledger: the state at a checkpoint, and the references to the
revisions visible there, in the order of the browse index. -/
structure ReadLedger (C : Type) where
  accepts : C → Bool
  state : C → Store
  revisions : C → List RevisionBrowseRef

/-- `queryBrowse({ kind: 'revisions', mode: 'all', at, offset, limit })`; the total is the
number of references. -/
def queryBrowse (refs : List RevisionBrowseRef) (offset limit : Nat) : List RevisionBrowseRef :=
  (refs.drop offset).take limit

def projectionInvalid {α : Type} (message : String) : Except ApiError α :=
  apiFail "PROJECTION_INVALID" message 503

/-- The referenced revision; stored values were validated when they were projected. -/
def readIndexedRevision [Sha256] (state : Store) (ref : RevisionBrowseRef) :
    Except ApiError DocumentRevision :=
  let mismatch := projectionInvalid "검증된 원장 참조와 개정본이 일치하지 않습니다."
  if ref.key ≠ keyFor.revision ref.revisionDigest.1 then mismatch
  else
    match publishedAt state ref.revisionDigest with
    | none => mismatch
    | some revision => if sameSlot revision.payload.toSlot ref.slot then .ok revision else mismatch

/-! ## Cursors -/

structure Cursor (C : Type) where
  binding : String
  checkpoint : C
  offset : Nat
  candidateSetHash : Option String

/-- The text of a cursor: its JSON in base64url, with an HMAC of the service's key.  `opened`
is the cursor of a text that has the right form and signature. -/
class CursorSeal (C : Type) where
  sealed : Cursor C → String
  opened : String → Option (Cursor C)
  opened_sealed : ∀ c, opened (sealed c) = some c

structure PageInput where
  limit : Option Value
  cursor : Option String

structure PageContext (C : Type) where
  limit : Nat
  offset : Nat
  checkpoint : C
  binding : String
  candidateSetHash : Option String

/-- `input.limit`, a safe integer from 1 to 50. -/
def pageLimit : Option Value → Option Nat
  | none => some 20
  | some (.num (.int n)) => if 1 ≤ n ∧ n ≤ 50 then some n.toNat else none
  | some _ => none

/-- Who asks for what: the list a cursor belongs to. -/
def pageBinding [Sha256] (actor : Actor) (kind : String) (filter : Value) : Except DomainError String := do
  let text ← canonicalize (.arr [jsonString actor.orgId.1, jsonString actor.actorId.1,
    jsonString actor.kind.text, jsonString kind, filter])
  return Sha256.hexDigest text

section Page

variable {C : Type} [CursorSeal C]

/-- The list is read at the checkpoint of the cursor, or at the newest one. -/
def page (ledger : ReadLedger C) (head : C) (binding : String) (input : PageInput) :
    Except ApiError (PageContext C) :=
  match pageLimit input.limit with
  | none => apiFail "INVALID_QUERY" "목록 크기는 1부터 50까지여야 합니다." 400
  | some limit =>
      match input.cursor with
      | none => .ok { limit, offset := 0, checkpoint := head, binding, candidateSetHash := none }
      | some text =>
          let stale := apiFail "INVALID_CURSOR"
            "목록 조건이나 계정이 바뀌었습니다. 첫 페이지부터 다시 불러오세요." 400
          match CursorSeal.opened text with
          | none => stale
          | some cursor =>
              if cursor.binding ≠ binding then stale
              else if ledger.accepts cursor.checkpoint = false then stale
              else .ok { limit, offset := cursor.offset, checkpoint := cursor.checkpoint, binding,
                         candidateSetHash := cursor.candidateSetHash }

def nextCursor (page : PageContext C) (total : Nat) (candidateSetHash : Option String) :
    Option String :=
  let offset := page.offset + page.limit
  if total ≤ offset then none
  else some (CursorSeal.sealed
    { binding := page.binding, checkpoint := page.checkpoint, offset, candidateSetHash })

theorem pageLimit_bounds {v : Option Value} {limit : Nat} (h : pageLimit v = some limit) :
    1 ≤ limit ∧ limit ≤ 50 := by
  unfold pageLimit at h
  split at h
  · obtain rfl := Option.some.inj h
    exact ⟨by decide, by decide⟩
  · split_ifs at h with bounds
    obtain rfl := Option.some.inj h
    omega
  · cases h

variable {ledger : ReadLedger C} {head : C} {binding : String} {limit : Option Value}
  {ctx : PageContext C}

/-- Without a cursor the list starts at the newest checkpoint. -/
theorem page_first (asked : page ledger head binding ⟨limit, none⟩ = .ok ctx) :
    ∃ n, pageLimit limit = some n ∧ ctx = ⟨n, 0, head, binding, none⟩ := by
  unfold page at asked
  dsimp only at asked
  split at asked
  · cases asked
  · obtain rfl := Except.ok.inj asked
    exact ⟨_, ‹_›, rfl⟩

/-- With a cursor the list goes on where the cursor says. -/
theorem page_sealed {cursor : Cursor C} :
    page ledger head binding ⟨limit, some (CursorSeal.sealed cursor)⟩ = .ok ctx ↔
      cursor.binding = binding ∧ ledger.accepts cursor.checkpoint = true ∧
        ∃ n, pageLimit limit = some n ∧
          ctx = ⟨n, cursor.offset, cursor.checkpoint, binding, cursor.candidateSetHash⟩ := by
  unfold page
  cases pageLimit limit with
  | none => simp [apiFail]
  | some n =>
      dsimp only
      rw [CursorSeal.opened_sealed]
      dsimp only
      split_ifs with other refused
      · simp [apiFail, other]
      · simp [apiFail, refused]
      · rw [not_not] at other
        rw [Bool.not_eq_false] at refused
        simp [other, refused, eq_comm]

theorem page_limit {input : PageInput} (asked : page ledger head binding input = .ok ctx) :
    1 ≤ ctx.limit ∧ ctx.limit ≤ 50 ∧ ctx.binding = binding := by
  unfold page at asked
  split at asked
  · cases asked
  · have bounds := pageLimit_bounds ‹_›
    split at asked
    · obtain rfl := Except.ok.inj asked
      exact ⟨bounds.1, bounds.2, rfl⟩
    · dsimp only at asked
      split at asked
      · cases asked
      · split_ifs at asked
        · cases asked
        · cases asked
        · obtain rfl := Except.ok.inj asked
          exact ⟨bounds.1, bounds.2, rfl⟩

theorem nextCursor_some {total : Nat} {hash : Option String} {text : String} :
    nextCursor ctx total hash = some text ↔ ctx.offset + ctx.limit < total ∧
      text = CursorSeal.sealed ⟨ctx.binding, ctx.checkpoint, ctx.offset + ctx.limit, hash⟩ := by
  unfold nextCursor
  dsimp only
  split_ifs with last
  · simp [last]
  · simp only [Option.some.injEq, not_le.mp last, true_and, eq_comm]

theorem nextCursor_none {total : Nat} {hash : Option String} :
    nextCursor ctx total hash = none ↔ total ≤ ctx.offset + ctx.limit := by
  unfold nextCursor
  dsimp only
  split_ifs with last
  · simp [last]
  · simp [last]

end Page

/-! ## Chains of pages -/

/-- Pages, each asked for with the cursor of the one before it; `request` holds of what is
asked for and what is answered then, whatever happened in between. -/
inductive Pages {P : Type} (request : PageInput → P → Prop) (next : P → Option String) :
    Option String → List P → Prop
  | one {cursor : Option String} {limit : Option Value} {p : P}
      (answered : request ⟨limit, cursor⟩ p) : Pages request next cursor [p]
  | more {cursor : Option String} {limit : Option Value} {p : P} {text : String} {ps : List P}
      (answered : request ⟨limit, cursor⟩ p) (follow : next p = some text)
      (rest : Pages request next (some text) ps) : Pages request next cursor (p :: ps)

/-- A chain of requests is a chain of all that the requests imply. -/
theorem Pages.mono {P : Type} {request request' : PageInput → P → Prop} {next : P → Option String}
    {cursor : Option String} {ps : List P} (pages : Pages request next cursor ps)
    (also : ∀ p ∈ ps, ∀ input, request input p → request' input p) :
    Pages request' next cursor ps := by
  induction pages with
  | one answered => exact .one (also _ (List.mem_singleton.mpr rfl) _ answered)
  | more answered follow _ ih =>
      exact .more (also _ List.mem_cons_self _ answered) follow
        (ih fun p mem => also p (List.mem_cons_of_mem _ mem))

/-- Every page of a chain was asked for. -/
theorem Pages.asked {P : Type} {request : PageInput → P → Prop} {next : P → Option String}
    {cursor : Option String} {ps : List P} (pages : Pages request next cursor ps) :
    ps ≠ [] ∧ ∀ p ∈ ps, ∃ input, request input p := by
  induction pages with
  | one answered =>
      refine ⟨List.cons_ne_nil _ _, fun p mem => ?_⟩
      rw [List.mem_singleton.mp mem]
      exact ⟨_, answered⟩
  | more answered _ _ ih =>
      refine ⟨List.cons_ne_nil _ _, fun p mem => ?_⟩
      rcases List.mem_cons.mp mem with rfl | later
      · exact ⟨_, answered⟩
      · exact ih.2 p later

section Chains

variable {C P A : Type} [CursorSeal C] {request : PageInput → P → Prop}
  {next : P → Option String}

/-- How the pages of a list are cut: `all` is the list at a checkpoint. -/
structure Cut (next : P → Option String) (checkpoint : P → C) (items : P → List A)
    (all : C → List A) (ctx : PageContext C) (p : P) : Prop where
  checkpoint : checkpoint p = ctx.checkpoint
  items : items p = ((all ctx.checkpoint).drop ctx.offset).take ctx.limit
  next : ∃ hash, next p = nextCursor ctx (all ctx.checkpoint).length hash

variable {checkpoint : P → C} {items : P → List A} {all : C → List A} {ledger : ReadLedger C}
  {binding : String} {cursor : Option String} {ps : List P}

/-- What the pages from an offset on show: items of the list at one checkpoint, in order and
without a gap, and all of them once there is no next cursor. -/
structure Enumerates (next : P → Option String) (checkpoint : P → C) (items : P → List A)
    (rest : List A) (c : C) (ps : List P) : Prop where
  checkpoint : ∀ p ∈ ps, checkpoint p = c
  initial : ps.flatMap items <+: rest
  bounded : ps.length ≤ rest.length + 1
  complete : (∀ p, ps.getLast? = some p → next p = none) → ps.flatMap items = rest

/-- One page. -/
theorem Cut.enumerates {ctx : PageContext C} {p : P} (cut : Cut next checkpoint items all ctx p) :
    Enumerates next checkpoint items ((all ctx.checkpoint).drop ctx.offset) ctx.checkpoint [p] where
  checkpoint q mem := by
    rw [List.mem_singleton.mp mem]
    exact cut.checkpoint
  initial := by
    rw [List.flatMap_singleton, cut.items]
    exact List.take_prefix _ _
  bounded := by simp
  complete last := by
    obtain ⟨hash, is⟩ := cut.next
    have none := last p rfl
    rw [is, nextCursor_none] at none
    rw [List.flatMap_singleton, cut.items, List.take_of_length_le]
    rw [List.length_drop]
    omega

/-- A page, and the pages after it. -/
theorem Enumerates.cons {ctx : PageContext C} {p : P} (cut : Cut next checkpoint items all ctx p)
    (within : ctx.offset + ctx.limit < (all ctx.checkpoint).length) (some : 1 ≤ ctx.limit)
    (later : Enumerates next checkpoint items
      ((all ctx.checkpoint).drop (ctx.offset + ctx.limit)) ctx.checkpoint ps) :
    Enumerates next checkpoint items ((all ctx.checkpoint).drop ctx.offset) ctx.checkpoint
      (p :: ps) := by
  have split : (all ctx.checkpoint).drop ctx.offset =
      items p ++ (all ctx.checkpoint).drop (ctx.offset + ctx.limit) := by
    rw [cut.items, ← List.drop_drop, List.take_append_drop]
  refine ⟨fun q mem => ?_, ?_, ?_, fun last => ?_⟩
  · rcases List.mem_cons.mp mem with rfl | inside
    · exact cut.checkpoint
    · exact later.checkpoint q inside
  · rw [List.flatMap_cons, split]
    exact (List.prefix_append_right_inj _).mpr later.initial
  · have bounded := later.bounded
    rw [List.length_drop] at bounded
    rw [List.length_cons, List.length_drop]
    omega
  · rw [List.flatMap_cons, split, later.complete fun q is => last q ?_]
    rw [List.getLast?_cons, is]
    rfl

/-- **Paging.**  A chain of pages enumerates the list at the checkpoint of its first page. -/
theorem Pages.enumerates
    (cuts : ∀ input p, request input p → ∃ head ctx, page ledger head binding input = .ok ctx ∧
      Cut next checkpoint items all ctx p)
    (pages : Pages request next cursor ps) :
    ∃ c offset, Enumerates next checkpoint items ((all c).drop offset) c ps ∧
      (cursor = none → offset = 0) ∧
      ∀ sealed : Cursor C, cursor = some (CursorSeal.sealed sealed) →
        c = sealed.checkpoint ∧ offset = sealed.offset := by
  induction pages with
  | @one cursor limit p answered =>
      obtain ⟨head, ctx, asked, cut⟩ := cuts _ _ answered
      refine ⟨ctx.checkpoint, ctx.offset, cut.enumerates, ?_, ?_⟩
      · rintro rfl
        obtain ⟨n, -, rfl⟩ := page_first asked
        rfl
      · rintro sealed rfl
        obtain ⟨-, -, n, -, rfl⟩ := page_sealed.mp asked
        exact ⟨rfl, rfl⟩
  | @more cursor limit p text ps answered follow rest ih =>
      obtain ⟨head, ctx, asked, cut⟩ := cuts _ _ answered
      obtain ⟨hash, is⟩ := cut.next
      rw [is, nextCursor_some] at follow
      obtain ⟨within, rfl⟩ := follow
      obtain ⟨c, offset, later, -, goes⟩ := ih
      obtain ⟨rfl, rfl⟩ := goes _ rfl
      refine ⟨ctx.checkpoint, ctx.offset, ?_, ?_, ?_⟩
      · exact .cons cut within (page_limit asked).1 later
      · rintro rfl
        obtain ⟨n, -, rfl⟩ := page_first asked
        rfl
      · rintro sealed rfl
        obtain ⟨-, -, n, -, rfl⟩ := page_sealed.mp asked
        exact ⟨rfl, rfl⟩

end Chains

namespace Demo

/-- A number in unary, before the rest. -/
def tally (n : Nat) (rest : List Char) : List Char := List.replicate n '1' ++ '.' :: rest

theorem tally_inj {m n : Nat} {rest rest' : List Char} (same : tally m rest = tally n rest') :
    m = n ∧ rest = rest' := by
  induction m generalizing n with
  | zero =>
      cases n with
      | zero => exact ⟨rfl, (List.cons.inj same).2⟩
      | succ n => exact absurd (List.cons.inj same).1 (by decide)
  | succ m ih =>
      cases n with
      | zero => exact absurd (List.cons.inj same).1 (by decide)
      | succ n =>
          obtain ⟨rfl, tail⟩ := ih (List.cons.inj same).2
          exact ⟨rfl, tail⟩

variable {C : Type}

/-- The text of a cursor: its numbers, then its strings. -/
def cursorText (mark : C → Nat) (c : Cursor C) : String :=
  String.ofList (tally (mark c.checkpoint) (tally c.offset (match c.candidateSetHash with
    | none => tally 0 c.binding.toList
    | some hash => tally (hash.toList.length + 1) (hash.toList ++ c.binding.toList))))

theorem cursorText_inj {mark : C → Nat} (marks : Function.Injective mark) :
    Function.Injective (cursorText mark) := by
  intro a b same
  obtain ⟨bindingA, checkpointA, offsetA, hashA⟩ := a
  obtain ⟨bindingB, checkpointB, offsetB, hashB⟩ := b
  obtain ⟨checkpoint, rest⟩ := tally_inj (String.ofList_injective same)
  obtain ⟨offset, last⟩ := tally_inj rest
  obtain rfl : checkpointA = checkpointB := marks checkpoint
  obtain rfl : offsetA = offsetB := offset
  cases hashA with
  | none =>
      cases hashB with
      | none =>
          obtain rfl : bindingA = bindingB := String.toList_inj.mp (tally_inj last).2
          rfl
      | some hash => cases (tally_inj last).1
  | some hash =>
      cases hashB with
      | none => cases (tally_inj last).1
      | some other =>
          obtain ⟨length, strings⟩ := tally_inj last
          obtain ⟨first, second⟩ := List.append_inj strings (Nat.succ.inj length)
          obtain rfl : hash = other := String.toList_inj.mp first
          obtain rfl : bindingA = bindingB := String.toList_inj.mp second
          rfl

/-- A seal of cursors that opens what it sealed. -/
@[reducible] noncomputable def textSeal (mark : C → Nat) (marks : Function.Injective mark) :
    CursorSeal C where
  sealed := cursorText mark
  opened := Function.partialInv (cursorText mark)
  opened_sealed := Function.partialInv_left (cursorText_inj marks)

end Demo

end Knowledger.Api
