import Lineage.Refresher
import Lineage.Proofs.Graph.Shortest

/-!
# What a refresher sends

A refresher that was not used yet builds the graph of the child, and sends its console, if it has one, what the difference of the two
graphs names, in that order. It can only fail where the graph cannot be built, and after a failure nothing was sent. In a stable context
the only thing that can go wrong is that the child has an ancestor too far away. A refresher that was used does nothing but log.
-/

namespace Lineage

namespace Context

variable {σ : Type} {c c' : Context σ}

/-- Two contexts that differ in what was logged at most: nobody was asked in between, and the cache was not used. -/
structure OnlyLogs (c c' : Context σ) : Prop where
  sources : c'.sources = c.sources
  cache : c'.cache = c.cache

theorem OnlyLogs.refl (c : Context σ) : OnlyLogs c c := ⟨rfl, rfl⟩

theorem OnlyLogs.log (h : OnlyLogs c c') (log : Array Log.Event) : OnlyLogs c { c' with log } := ⟨h.sources, h.cache⟩

/-- What is logged does not matter to a faithful context. -/
theorem Faithful.onlyLogs [Sources σ] {f : Ancestry} {total : Prop} (h : c.Faithful f total) (hl : OnlyLogs c c') :
    c'.Faithful f total :=
  ⟨hl.sources ▸ h.agree, hl.cache ▸ h.holds, hl.sources ▸ h.answering⟩

end Context

namespace Refresher

/-- The refresher after tokens were sent, to its console if it has one. -/
def receive (r : Refresher) (ts : List Token) : Refresher := { r with console := r.console.map (· ++ ts) }

/-- How many of some tokens a refresher sends: all, or none without a console. -/
def sends (r : Refresher) (ts : List Token) : Nat := if r.console.isSome then ts.length else 0

end Refresher

namespace Refreshing

variable {σ : Type} {f : Ancestry} {r : Refresher} {before : LevelGraph} {id : String} {sent : List Token} {c : Context σ}

/-! ## Sending -/

/-- The refresher is `r`, and nothing was done with the context `c` but logging. -/
abbrev Rests (r : Refresher) (c : Context σ) (s : Refreshing σ) : Prop := s.refresher = r ∧ c.OnlyLogs s.context

theorem emit_spec (e : Log.Event) : Act.Spec (Rests r c) (emit e) (fun _ => Rests r c) fun _ _ => False :=
  fun _ hs => ⟨hs.1, hs.2.log _⟩

/-- The console is asked to show tokens anew, in order. -/
theorem sendAll_spec (posted : Bool) (ts : List Token) :
    Act.Spec (Rests ⟨before, id, some sent, posted⟩ c) (sendAll id ts)
      (fun _ => Rests ⟨before, id, some (sent ++ ts), posted⟩ c) fun _ _ => False := by
  induction ts generalizing sent with
  | nil =>
    rw [List.append_nil]
    exact Act.Spec.pure fun _ h => h
  | cons t ts ih =>
    refine (emit_spec _).bind fun _ => Act.Spec.bind (R := fun _ => Rests ⟨before, id, some (sent ++ [t]), posted⟩ c) ?_ fun _ => ?_
    · exact Act.Spec.modify fun s hs => ⟨by rw [hs.1]; rfl, hs.2⟩
    · rw [List.append_cons sent t ts]
      exact ih

/-- A console is sent all tokens. -/
theorem send_spec (ts : List Token) :
    Act.Spec (Rests r c) (send ts) (fun n s => n = r.sends ts ∧ Rests (r.receive ts) c s) fun _ _ => False := by
  refine Act.Spec.get fun s hs => ?_
  rw [hs.1]
  obtain ⟨before, id, console, posted⟩ := r
  cases console with
  | some sent => exact ((sendAll_spec posted ts).of_state hs).bind fun _ => Act.Spec.pure fun s' hs' => ⟨rfl, hs'⟩
  | none => exact ((emit_spec _).of_state hs).bind fun _ => Act.Spec.pure fun s' hs' => ⟨rfl, hs'⟩

/-- What only logs in the context only logs. -/
theorem inContext_spec {α : Type} {q : Run (Context σ) α} {Q : α → Prop}
    (h : Act.Spec c.OnlyLogs q (fun a c' => Q a ∧ c.OnlyLogs c') fun _ _ => False) :
    Act.Spec (Rests r c) (inContext q) (fun a s => Q a ∧ Rests r c s) fun _ _ => False := by
  rintro s ⟨hs, hc⟩
  exact h.on hc (fun _ _ h => ⟨h.1, hs, h.2⟩) (fun _ _ h => h) s rfl

/-- The difference of two graphs is looked for without asking anybody. -/
theorem find_spec (before after : LevelGraph) :
    Act.Spec c.OnlyLogs (Difference.find before after) (fun ts c' => ts = Difference.tokens before after ∧ c.OnlyLogs c')
      fun _ _ => False := by
  refine Context.loggedBy_spec (Act.Spec.pure fun c hc => ⟨rfl, hc⟩) (fun e => ?_) (fun ts e => ?_) fun x e => ?_
  · exact Act.Spec.modify fun _ h => h.log _
  · exact Act.Spec.modify fun _ h => ⟨h.1, h.2.log _⟩
  · exact Act.Spec.modify fun _ h => h

/-! ## One post -/

variable [Sources σ]

/-- The context of a post when it begins to work: the start of the post is logged. -/
def begun (r : Refresher) (child : Token) (c : Context σ) : Context σ :=
  { c with log := c.log.push (Log.started Refresher.target Refresher.op
      [Refresher.requestField r.requestId, ("token", .text child.display)]) }

/-- The end of a post in a context `c`: the graph of the child was built, and the difference to it was sent. -/
def Dispatched (scope : Scope) (child : Token) (r : Refresher) (c : Context σ) (n : Nat) (s : Refreshing σ) : Prop :=
  ∃ after c', LevelGraph.build scope .both child false c = (.ok after, c') ∧
    n = r.sends (Difference.tokens r.before after) ∧
      Rests ({ r with posted := true }.receive (Difference.tokens r.before after)) c' s

/-- The failure of a post in a context `c`: the graph of the child could not be built. -/
def Undispatched (scope : Scope) (child : Token) (r : Refresher) (c : Context σ) (e : Error) (s : Refreshing σ) : Prop :=
  ∃ c', LevelGraph.build scope .both child false c = (.error e, c') ∧ Rests { r with posted := true } c' s

theorem dispatch_spec (scope : Scope) (child : Token) (hr : r.posted = false) (c : Context σ) :
    Act.Spec (· = ⟨r, c⟩) (dispatch scope child) (Dispatched scope child r c) (Undispatched scope child r c) := by
  refine Act.Spec.get fun s hs => ?_
  subst hs
  simp only [hr, Bool.false_eq_true, if_false]
  refine Act.Spec.bind (R := fun _ s => s = ⟨{ r with posted := true }, c⟩) ?_ fun _ => ?_
  · exact Act.Spec.modify fun s hs => by rw [hs]
  have hbuild : Act.Spec (· = c) (LevelGraph.build scope .both child false)
      (fun after c' => LevelGraph.build scope .both child false c = (.ok after, c'))
      fun e c' => LevelGraph.build scope .both child false c = (.error e, c') := by
    rintro _ rfl
    rcases hb : LevelGraph.build scope .both child false _ with ⟨_ | _, c'⟩ <;> rfl
  refine Act.Spec.bind (R := fun after s => ∃ c', LevelGraph.build scope .both child false c = (.ok after, c') ∧
    s = ⟨{ r with posted := true }, c'⟩) ?_ fun after => ?_
  · rintro s rfl
    exact hbuild.on rfl (fun after c' h => ⟨c', h, rfl⟩) (fun e c' h => ⟨c', h, rfl, Context.OnlyLogs.refl _⟩) _ rfl
  · refine Act.Spec.get fun s hs => ?_
    obtain ⟨c', hb, rfl⟩ := hs
    refine ((inContext_spec (find_spec r.before after)).of_state ⟨rfl, Context.OnlyLogs.refl c'⟩).never.bind fun ts =>
      Act.Spec.given fun hts => ?_
    subst hts
    exact (send_spec _).never.weaken (fun _ h => h) (fun n s h => ⟨after, c', hb, h⟩) fun _ _ h => h

/-- A first post sends what the difference to the graph of the child names, or fails as the building of that graph did. -/
theorem first_post_spec (scope : Scope) (child : Token) (hr : r.posted = false) (c : Context σ) :
    Act.Spec (· = ⟨r, c⟩) (post scope child) (Dispatched scope child r (begun r child c))
      (Undispatched scope child r (begun r child c)) := by
  refine Act.Spec.get fun s hs => ?_
  subst hs
  refine Context.loggedBy_spec_of_start (dispatch_spec scope child hr (begun r child c)) ?_ ?_ ?_
  · rintro s rfl
    rfl
  · rintro n e s ⟨after, c', hb, hn, hs⟩
    exact ⟨after, c', hb, hn, hs.1, hs.2.log _⟩
  · rintro x e s ⟨c', hb, hs⟩
    exact ⟨c', hb, hs.1, hs.2.log _⟩

/-- A later post is refused. -/
theorem later_post_spec (scope : Scope) (child : Token) (hr : r.posted = true) (c : Context σ) :
    Act.Spec (· = ⟨r, c⟩) (post scope child) (fun _ _ => False) fun e s => e = .alreadyPosted ∧ Rests r c s := by
  have hdispatch : Act.Spec (Rests r c) (dispatch scope child) (fun _ _ => False) fun e s => e = .alreadyPosted ∧ Rests r c s := by
    refine Act.Spec.get fun s hs => ?_
    rw [hs.1]
    simp only [hr, if_true]
    rintro _ rfl
    exact ⟨rfl, hs⟩
  refine Act.Spec.get fun s hs => ?_
  subst hs
  refine (Context.loggedBy_spec hdispatch emit_spec (fun _ _ _ h => h.elim) fun x e => ?_).of_state ⟨rfl, Context.OnlyLogs.refl c⟩
  exact fun s h => ⟨h.1, h.2.1, h.2.2.log _⟩

/-! ## A post in a stable context -/

/-- The refresher is `r`, in a stable context. -/
abbrev At (f : Ancestry) (r : Refresher) (s : Refreshing σ) : Prop := s.refresher = r ∧ s.context.Stable f

/-- The child has an ancestor too far away. -/
def TooDeep (f : Ancestry) (child : Token) : Prop := ∃ n x, f.Distance .both n child.identity x ∧ LevelGraph.maxLevel < n

/-- The graph of the child is built, or the child has an ancestor too far away. -/
theorem build_spec (scope : Scope) (child : Token) :
    Act.Spec (Context.Stable f) (LevelGraph.build scope .both child false : Run (Context σ) LevelGraph)
      (fun after c => (after.Complete f ∧ after.search = .both ∧ after.root = child) ∧ c.Stable f)
      fun _ c => TooDeep f child ∧ c.Stable f := by
  refine (LevelGraph.build_spec scope .both child).weaken (fun _ h => h) ?_ ?_
  · exact fun g c h => ⟨⟨h.1.1, h.1.2.2⟩, h.2⟩
  · rintro e c ⟨hc, he⟩
    obtain ⟨-, g, hg, hsearch, hroot, hcount⟩ := he trivial
    obtain ⟨i, hi, hl⟩ := hg.levelled.exists_node hcount
    obtain ⟨t, ht⟩ := LevelGraph.exists_token?_iff.2 hi
    have hd := hg.distance ht
    rw [hsearch, hroot, hl] at hd
    exact ⟨⟨_, _, hd, Nat.lt_succ_self _⟩, hc⟩

/-- The end of a post that sends what the difference to the graph of the child names. -/
def Sent (f : Ancestry) (before : LevelGraph) (id : String) (sent : List Token) (child : Token) (n : Nat)
    (s : Refreshing σ) : Prop :=
  ∃ after : LevelGraph, (after.Complete f ∧ after.search = .both ∧ after.root = child) ∧
    n = (Difference.tokens before after).length ∧ At f ⟨before, id, some (sent ++ Difference.tokens before after), true⟩ s

/-- A post to a console sends what the difference to the graph of the child names, unless the child has an ancestor too far away. -/
theorem post_spec (scope : Scope) (child : Token) :
    Act.Spec (At f ⟨before, id, some sent, false⟩) (post scope child : Run (Refreshing σ) Nat) (Sent f before id sent child)
      fun _ s => TooDeep f child ∧ s.context.Stable f := by
  rintro ⟨r, c⟩ ⟨rfl, hc⟩
  have hbegun : (begun ⟨before, id, some sent, false⟩ child c).Stable f := hc.log _
  refine (first_post_spec scope child rfl c).weaken (fun _ h => h) ?_ ?_ _ rfl
  · rintro n s ⟨after, c', hb, hn, hs⟩
    obtain ⟨hafter, hc'⟩ := (build_spec scope child).of_ok hbegun hb
    exact ⟨after, hafter, hn, hs.1, hc'.onlyLogs hs.2⟩
  · rintro e s ⟨c', hb, hs⟩
    obtain ⟨hdeep, hc'⟩ := (build_spec scope child).of_error hbegun hb
    exact ⟨hdeep, hc'.onlyLogs hs.2⟩

end Refreshing
end Lineage
