import Lineage.Proofs.Difference.Places
import Lineage.Proofs.Refresher
import Lineage.Proofs.Sources

/-!
# A refresher is used once

Whoever has a refresher may call it as often as they like, for any children, and anything may happen to the context between the calls:
the sources may change or begin to fail, the cache may be used or emptied, somebody else may log in. Whatever happens, the first call is
the only one that does something, also if it fails.
-/

namespace Lineage.Refreshing

variable {σ : Type}

/-- A call of a refresher, with what happens to the context before it. -/
structure Posting (σ : Type) where
  meanwhile : Context σ → Context σ
  scope : Scope
  child : Token

/-- A call that was made: where it began, what it returned, and where it ended. -/
structure Turn (σ : Type) where
  start : Refreshing σ
  result : Except Error Nat
  finish : Refreshing σ

variable [Sources σ]

/-- A call, made after what happens before it. -/
def Posting.turn (p : Posting σ) (s : Refreshing σ) : Turn σ :=
  let start : Refreshing σ := { s with context := p.meanwhile s.context }
  ⟨start, (post p.scope p.child start).1, (post p.scope p.child start).2⟩

/-- Calls, made one after the other. -/
def course : List (Posting σ) → Refreshing σ → List (Turn σ)
  | [], _ => []
  | p :: ps, s => p.turn s :: course ps (p.turn s).finish

variable {r : Refresher} {c c₀ : Context σ} {s : Refreshing σ} {p : Posting σ} {ps : List (Posting σ)} {turn : Turn σ}

/-- A call that is refused. -/
structure Refused (turn : Turn σ) : Prop where
  result : turn.result = .error .alreadyPosted
  refresher : turn.finish.refresher = turn.start.refresher
  context : turn.start.context.OnlyLogs turn.finish.context

theorem turn_eq {x : Except Error Nat} {s' : Refreshing σ}
    (h : post p.scope p.child ⟨s.refresher, p.meanwhile s.context⟩ = (x, s')) :
    p.turn s = ⟨⟨s.refresher, p.meanwhile s.context⟩, x, s'⟩ := by
  simp only [Posting.turn, h]

/-- A used refresher refuses. -/
theorem refused_of_posted (h : s.refresher.posted = true) (p : Posting σ) : Refused (p.turn s) := by
  obtain ⟨_, _, _, hnever⟩ | ⟨e, s', hr, rfl, hrefresher, hcontext⟩ :=
    (later_post_spec p.scope p.child h (p.meanwhile s.context)).outcome rfl
  · exact hnever.elim
  · rw [turn_eq hr]
    exact ⟨rfl, hrefresher, hcontext⟩

/-- A used refresher refuses all calls, and stays as it is. -/
theorem refused_of_mem_course (h : s.refresher.posted = true) (ht : turn ∈ course ps s) :
    Refused turn ∧ turn.finish.refresher = s.refresher := by
  induction ps generalizing s with
  | nil => cases ht
  | cons p ps ih =>
    have hrefused := refused_of_posted h p
    have hsame : (p.turn s).finish.refresher = s.refresher := hrefused.refresher
    rcases List.mem_cons.1 ht with rfl | ht
    · exact ⟨hrefused, hsame⟩
    · obtain ⟨hturn, hfinish⟩ := ih (by rw [hsame]; exact h) ht
      exact ⟨hturn, hfinish.trans hsame⟩

/-- A refresher that was just made is unused, and its console was not asked for anything. -/
theorem unused_of_new {scope : Scope} {id : String} {console : Bool} {parent : Token}
    (h : Refresher.new scope id console parent c₀ = (.ok r, c)) :
    r.posted = false ∧ r.console = if console then some [] else none := by
  obtain ⟨_, c₁, -, h⟩ := Act.exists_of_bind_eq_ok h
  obtain ⟨before, c₂, -, h⟩ := Act.exists_of_bind_eq_ok h
  cases h
  exact ⟨rfl, rfl⟩

/-- The first call does what can be done: it sends the difference to the graph of its child, or fails as the building of that graph did. -/
theorem turn_of_unused (h : s.refresher.posted = false) (p : Posting σ) :
    match (LevelGraph.build p.scope .both p.child false (begun s.refresher p.child (p.meanwhile s.context))).1 with
    | .ok after =>
      let tokens := Difference.tokens s.refresher.before after
      (p.turn s).result = .ok (s.refresher.sends tokens) ∧
        (p.turn s).finish.refresher = { s.refresher with posted := true }.receive tokens
    | .error e => (p.turn s).result = .error e ∧ (p.turn s).finish.refresher = { s.refresher with posted := true } := by
  obtain ⟨n, s', hr, after, c', hb, rfl, hs, -⟩ | ⟨e, s', hr, c', hb, hs, -⟩ :=
    (first_post_spec p.scope p.child h (p.meanwhile s.context)).outcome rfl
  · rw [hb, turn_eq hr]
    exact ⟨rfl, hs⟩
  · rw [hb, turn_eq hr]
    exact ⟨rfl, hs⟩

/-- Whatever comes of the first call, the refresher is used. -/
theorem posted_turn (h : s.refresher.posted = false) (p : Posting σ) : (p.turn s).finish.refresher.posted = true := by
  have hturn := turn_of_unused h p
  split at hturn
  · rw [hturn.2]
    rfl
  · rw [hturn.2]

/-- After the first call a refresher sends nothing more. -/
theorem sent_of_mem_course (h : s.refresher.posted = false) (p : Posting σ) (ht : turn ∈ p.turn s :: course ps (p.turn s).finish) :
    turn.finish.refresher.sent = (p.turn s).finish.refresher.sent := by
  rcases List.mem_cons.1 ht with rfl | ht
  · rfl
  · rw [(refused_of_mem_course (posted_turn h p) ht).2]

/-- All calls of a refresher. The first one builds the graph of its child, in the context it finds. If that can be done, it sends the
console the tokens of the difference between the two graphs, in order and no object twice, and returns their number, or it sends nothing
and returns zero if there is no console; nothing else is ever sent. If the graph cannot be built, that error is returned and nothing is
ever sent. All later calls are refused: they ask nobody, do not use the cache and leave the refresher, its console included, as it is. -/
theorem posts_once {scope : Scope} {id : String} {console : Bool} {parent : Token}
    (h : Refresher.new scope id console parent c₀ = (.ok r, c)) (first : Posting σ) (later : List (Posting σ)) :
    let turn := first.turn ⟨r, c⟩
    let turns := course later turn.finish
    let built := (LevelGraph.build first.scope .both first.child false (begun r first.child (first.meanwhile c))).1
    course (first :: later) ⟨r, c⟩ = turn :: turns ∧
    (∀ after, built = .ok after →
      let tokens := if console then Difference.tokens r.before after else []
      turn.result = .ok tokens.length ∧ (tokens.map Token.identity).Nodup ∧
        ∀ t ∈ turn :: turns, t.finish.refresher.sent = tokens) ∧
    (∀ e, built = .error e → turn.result = .error e ∧ ∀ t ∈ turn :: turns, t.finish.refresher.sent = []) ∧
    ∀ t ∈ turns, Refused t := by
  intro turn turns built
  obtain ⟨hposted, hconsole⟩ := unused_of_new h
  have hturn := turn_of_unused (s := ⟨r, c⟩) hposted first
  have hsent : ∀ t ∈ turn :: turns, t.finish.refresher.sent = turn.finish.refresher.sent :=
    fun t ht => sent_of_mem_course (s := ⟨r, c⟩) hposted first ht
  refine ⟨rfl, fun after hbuilt => ?_, fun e hbuilt => ?_, fun t ht => (refused_of_mem_course (posted_turn hposted first) ht).1⟩
  · rw [show (LevelGraph.build _ _ _ _ _).1 = .ok after from hbuilt] at hturn
    obtain ⟨hresult, hfinish⟩ := hturn
    intro tokens
    refine ⟨hresult.trans ?_, ?_, fun t ht => (hsent t ht).trans ?_⟩
    · cases console <;> simp [Refresher.sends, hconsole, tokens]
    · cases console with
      | true => exact Token.nodup_distinct _
      | false => exact List.nodup_nil
    · rw [hfinish]
      cases console <;> simp [Refresher.receive, Refresher.sent, hconsole, tokens]
  · rw [show (LevelGraph.build _ _ _ _ _).1 = .error e from hbuilt] at hturn
    obtain ⟨hresult, hfinish⟩ := hturn
    refine ⟨hresult, fun t ht => (hsent t ht).trans ?_⟩
    rw [hfinish]
    cases console <;> simp [Refresher.sent, hconsole]

/-- A page with a child that is hooked below the top as well. The first call sends the difference, the second one is refused, even in a
context that was begun anew. -/
theorem posts_once_hooked :
    let top := Token.element "page" "site" "1"
    let parent := Token.element "page" "site" "2"
    let child := Token.element "page" "site" "3"
    let l := (Listing.empty.add child parent).add parent top
    let c := Context.new (Catalog.ofTables l (Hooks.empty.add child top)) {}
    let post : Posting Catalog := ⟨fun _ => c, none, child⟩
    ∃ r c' after, Refresher.new none "r" true parent c = (.ok r, c') ∧
      (post.turn ⟨r, c'⟩).result = .ok (Difference.tokens r.before after).length ∧
      ∀ t ∈ course [post] (post.turn ⟨r, c'⟩).finish,
        t.result = .error .alreadyPosted ∧ t.finish.refresher.sent = Difference.tokens r.before after := by
  intro top parent child l c post
  have hok : ((Refresher.new none "r" true parent c).1.toOption.map fun r =>
      (LevelGraph.build none .both child false (begun r child c)).1.toOption.map fun _ => true) = some (some true) := by
    decide +kernel
  obtain ⟨r, c', hnew, hr⟩ := Act.exists_of_map_eq_some hok
  obtain ⟨after, c'', hb, -⟩ := Act.exists_of_map_eq_some hr
  obtain ⟨-, hfirst, -, hlater⟩ := posts_once hnew post [post]
  obtain ⟨hresult, -, hsent⟩ := hfirst after (congrArg Prod.fst hb)
  exact ⟨r, c', after, hnew, hresult, fun t ht => ⟨(hlater t ht).result, hsent t (List.mem_cons_of_mem _ ht)⟩⟩

end Lineage.Refreshing
