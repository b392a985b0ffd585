import Lineage.Proofs.Noted
import Lineage.Proofs.Paths.Beside
import Lineage.Proofs.Paths.Enumeration
import Lineage.Proofs.Token.Distinct

/-!
# Path graphs after failures

A source may fail in the middle of an expansion in the middle of a search for paths, and the nodes that were added up to there stay. They
are not expanded, and that is all that is left: every identity has one node, no expanded node has changed, and the node whose expansion
failed is asked about again, from the first category on. So whatever failed before, a search that ends lists what it lists in a graph in
which nothing has failed (`recovers`). What sources are asked is told by noting the questions (`Noted`), which changes nothing else.
-/

namespace Lineage

namespace Exploring

variable {σ : Type} [Sources σ]

/-- What can be asked of a path graph: the parents of a node, or all paths from it. -/
inductive Call where
  | parents (i : NodeId)
  | allPaths (limit : Nat) (i : NodeId)
  deriving DecidableEq, Repr

/-- The node that is asked about. -/
def Call.node : Call → NodeId
  | .parents i => i
  | .allPaths _ i => i

/-- A call, carried out for what it does to the graph. -/
def Call.run : Call → Run (Exploring σ) Unit
  | .parents i => do
    let _ ← Exploring.parents i
    pure ()
  | .allPaths limit i => do
    let _ ← Exploring.allPaths limit i
    pure ()

/-- The questions that a call asks of sources, in order. -/
def Call.questions (call : Call) (g : PathGraph) (sources : σ) : List (Category × Token) :=
  (call.run (⟨g, Context.noting sources⟩ : Exploring (Noted σ))).2.context.sources.questions

/-- That questions are noted changes nothing. -/
theorem Call.run_unnoted (call : Call) : Act.Mirrors (Beside Context.Unnoted) Eq (call.run : Run (Exploring (Noted σ)) Unit)
    (call.run : Run (Exploring σ) Unit) := by
  cases call with
  | parents i => exact (parents_beside Context.ask_unnoted i).bind fun _ _ _ => Act.Mirrors.pure rfl
  | allPaths limit i =>
    exact (allPaths_beside Context.ask_unnoted Context.emit_unnoted limit i).bind fun _ _ _ => Act.Mirrors.pure rfl

end Exploring

namespace PathGraph

/-- The categories of the questions about an identity, in the order in which they were asked. -/
def asked (qs : List (Category × Token)) (x : Identity) : List Category := (qs.filter (·.2.identity = x)).map (·.1)

/-- An expanded node names the identity. -/
def Settled (g : PathGraph) (x : Identity) : Prop := ∃ i, g.Knows i x

/-- Nodes were added that are not expanded, and nothing else was done. -/
structure Grown (g g' : PathGraph) : Prop where
  kept : ∀ (i : NodeId) (n : Node), g.nodes[i]? = some n → g'.nodes[i]? = some n
  bare : ∀ (i : NodeId) (n : Node), g'.nodes[i]? = some n → g.nodes[i]? = some n ∨ n.parents = none

/-- From one graph to the other every node that was expanded was asked about once in each category, and no other node was. -/
structure Progress (g g' : PathGraph) (qs : List (Category × Token)) : Prop where
  ext : g.Extends g'
  before : ∀ x, g.Settled x → asked qs x = []
  since : ∀ x, ¬g.Settled x → g'.Settled x → asked qs x = askingOrder
  never : ∀ x, ¬g'.Settled x → asked qs x = []

/-- The same up to a failure: then some node that is not expanded was asked about, and the source of one category failed after those
before it had answered. -/
def Stopped (g g' : PathGraph) (qs : List (Category × Token)) (e : Error) : Prop :=
  ∃ (earlier : List (Category × Token)) (done : List Category) (category : Category) (i : NodeId) (t : Token) (cause : String),
    qs = earlier ++ (done ++ [category]).map (·, t) ∧ done ++ [category] <+: askingOrder ∧ g.Progress g' earlier ∧
      e = .sourceFailed category t.display cause ∧ g'.nodes[i]? = some ⟨t, none⟩

variable {f : Ancestry} {g g' g'' : PathGraph} {qs qs' : List (Category × Token)} {e : Error} {i : NodeId} {x : Identity} {t : Token}
  {cs : List Category}

theorem asked_append (qs qs' : List (Category × Token)) (x : Identity) : asked (qs ++ qs') x = asked qs x ++ asked qs' x := by
  rw [asked, List.filter_append, List.map_append]
  rfl

/-- Questions about one token are all about what it names. -/
theorem asked_map (cs : List Category) (t : Token) (x : Identity) : asked (cs.map (·, t)) x = if t.identity = x then cs else [] := by
  induction cs with
  | nil => simp [asked]
  | cons c cs ih =>
    have hcons : asked ((c :: cs).map (·, t)) x = asked [(c, t)] x ++ asked (cs.map (·, t)) x := asked_append [(c, t)] _ x
    rw [hcons, ih]
    by_cases hx : t.identity = x
    · simp [asked, hx]
    · simp [asked, hx]

theorem Extends.settled (h : g.Extends g') (hx : g.Settled x) : g'.Settled x := by
  obtain ⟨i, hi⟩ := hx
  exact ⟨i, lasting_knows i x g g' h hi⟩

/-- An expanded node is the same in every graph that extends its graph. -/
theorem Extends.node_eq (h : g.Extends g') {n : Node} {ps : List NodeId} (hn : g.nodes[i]? = some n) (hps : n.parents = some ps) :
    g'.nodes[i]? = some n := by
  obtain ⟨n', hn', htoken, hparents⟩ := h.nodes i n hn
  have heq : n' = n := by
    cases n
    cases n'
    cases htoken
    cases hps
    cases hparents ps rfl
    rfl
  rw [hn', heq]

/-- Nodes that name something are there. -/
theorem exists_calls_of_mem {ids : List NodeId} {xs : List Identity} (h : g.Names ids xs) (hi : i ∈ ids) : ∃ x, g.Calls i x := by
  induction h with
  | nil => cases hi
  | cons hj _ ih =>
    rcases List.mem_cons.1 hi with rfl | hi
    · exact ⟨_, hj⟩
    · exact ih hi

/-! ## Nodes that are added -/

theorem Grown.refl (g : PathGraph) : g.Grown g := ⟨fun _ _ hn => hn, fun _ _ hn => Or.inl hn⟩

theorem Grown.trans (h : g.Grown g') (h' : g'.Grown g'') : g.Grown g'' :=
  ⟨fun i n hn => h'.kept i n (h.kept i n hn), fun i n hn => (h'.bare i n hn).elim (h.bare i n) Or.inr⟩

theorem grown_add (g : PathGraph) (t : Token) : g.Grown (g.add t) := by
  refine ⟨fun i n hn => ?_, fun i n hn => ?_⟩
  · rw [add, Array.getElem?_push, if_neg (Nat.ne_of_lt (Array.getElem?_eq_some_iff.1 hn).1), hn]
  · rw [add, Array.getElem?_push] at hn
    split at hn
    · cases hn
      exact Or.inr rfl
    · exact Or.inl hn

theorem grown_link (g : PathGraph) (found : List NodeId) (ts : List Token) : g.Grown (g.link found ts).2 := by
  induction ts generalizing g found with
  | nil => exact Grown.refl g
  | cons t ts ih =>
    have hfirst : g.Grown (g.nodeFor t).2 := by
      rcases nodeFor_cases g t with ⟨i, hi, -⟩ | ⟨hi, -⟩
      · rw [hi]
        exact Grown.refl g
      · rw [hi]
        exact grown_add g t
    exact hfirst.trans (ih _ _)

/-- No identity is settled by adding nodes. -/
theorem Grown.settled (h : g.Grown g') (hx : g'.Settled x) : g.Settled x := by
  obtain ⟨i, ⟨n, hn, hx⟩, hexpanded⟩ := hx
  obtain ⟨m, ps, hm, hps⟩ := isExpanded_iff.1 hexpanded
  rw [hn] at hm
  cases hm
  rcases h.bare i n hn with hn | hnone
  · exact ⟨i, ⟨n, hn, hx⟩, isExpanded_iff.2 ⟨n, ps, hn, hps⟩⟩
  · rw [hnone] at hps
    cases hps

/-! ## Progress -/

theorem Progress.refl (g : PathGraph) : g.Progress g [] :=
  ⟨Extends.refl g, fun _ _ => rfl, fun _ hno hx => absurd hx hno, fun _ _ => rfl⟩

theorem Progress.trans (h : g.Progress g' qs) (h' : g'.Progress g'' qs') : g.Progress g'' (qs ++ qs') := by
  refine ⟨h.ext.trans h'.ext, fun x hx => ?_, fun x hno hx => ?_, fun x hno => ?_⟩
  · rw [asked_append, h.before x hx, h'.before x (h.ext.settled hx), List.append_nil]
  · rw [asked_append]
    by_cases hmid : g'.Settled x
    · rw [h.since x hno hmid, h'.before x hmid, List.append_nil]
    · rw [h.never x hmid, h'.since x hmid hx, List.nil_append]
  · rw [asked_append, h.never x fun hx => hno (h'.ext.settled hx), h'.never x hno, List.append_nil]

/-- Progress up to a failure begins with progress. -/
theorem Progress.stopped (h : g.Progress g' qs) (h' : g'.Stopped g'' qs' e) : g.Stopped g'' (qs ++ qs') e := by
  obtain ⟨earlier, done, category, i, t, cause, rfl, horder, hprogress, he, hi⟩ := h'
  exact ⟨qs ++ earlier, done, category, i, t, cause, (List.append_assoc _ _ _).symm, horder, h.trans hprogress, he, hi⟩

/-- A node that is not expanded is the only one for what it names, so that is not settled. -/
theorem Sound.not_settled (h : g.Sound f) (hi : g.nodes[i]? = some ⟨t, none⟩) : ¬g.Settled t.identity := by
  rintro ⟨j, hj, hexpanded⟩
  obtain rfl := h.distinct j i _ hj ⟨_, hi, rfl⟩
  obtain ⟨n, ps, hn, hps⟩ := isExpanded_iff.1 hexpanded
  rw [hi] at hn
  cases hn
  cases hps

/-- What was asked up to a failure: as much as without it about all that does not concern the last question. -/
theorem Stopped.asked_eq (h : g.Stopped g' qs e) (hg : g'.Sound f) :
    g.Extends g' ∧ ∃ (category : Category) (i : NodeId) (t : Token) (cause : String), e = .sourceFailed category t.display cause ∧
      qs.getLast? = some (category, t) ∧ g'.nodes[i]? = some ⟨t, none⟩ ∧ asked qs t.identity <+: askingOrder ∧
      (∀ x, g.Settled x → asked qs x = []) ∧ (∀ x, ¬g.Settled x → g'.Settled x → asked qs x = askingOrder) ∧
      ∀ x, x ≠ t.identity → ¬g'.Settled x → asked qs x = [] := by
  obtain ⟨earlier, done, category, i, t, cause, rfl, horder, hprogress, rfl, hi⟩ := h
  have hnot := hg.not_settled hi
  have hother : ∀ x, x ≠ t.identity → asked (earlier ++ (done ++ [category]).map (·, t)) x = asked earlier x := fun x hx => by
    rw [asked_append, asked_map, if_neg (Ne.symm hx), List.append_nil]
  have hne : ∀ x, g'.Settled x → x ≠ t.identity := fun x hx heq => hnot (heq ▸ hx)
  refine ⟨hprogress.ext, category, i, t, cause, rfl, by simp, hi, ?_, fun x hx => ?_, fun x hno hx => ?_, fun x hx hno => ?_⟩
  · rw [asked_append, asked_map, if_pos rfl, hprogress.never _ hnot, List.nil_append]
    exact horder
  · rw [hother x (hne x (hprogress.ext.settled hx)), hprogress.before x hx]
  · rw [hother x (hne x hx), hprogress.since x hno hx]
  · rw [hother x hx, hprogress.never x hno]

/-- To add nodes is progress without questions. -/
theorem Grown.progress (h : g.Grown g') (hext : g.Extends g') : g.Progress g' [] :=
  ⟨hext, fun _ _ => rfl, fun _ hno hx => absurd (h.settled hx) hno, fun _ _ => rfl⟩

/-- To add nodes and to expand a node that was not is progress, with all questions about its token. -/
theorem Grown.progress_settle {n : Node} {ps : List NodeId} (h : g.Grown g') (hext : g.Extends (g'.settle i ps)) (hg : g.Sound f)
    (hn : g.nodes[i]? = some n) (hnone : n.parents = none) :
    g.Progress (g'.settle i ps) (askingOrder.map (·, n.token)) := by
  have hi : g'.Calls i n.token.identity := ⟨n, h.kept i n hn, rfl⟩
  have hsettled : (g'.settle i ps).Settled n.token.identity := ⟨i, calls_settle_iff.2 hi, isExpanded_settle hi ps⟩
  refine ⟨hext, fun x hx => ?_, fun x hno hx => ?_, fun x hno => ?_⟩
  · rw [asked_map, if_neg]
    rintro rfl
    obtain ⟨j, hj, hexpanded⟩ := hx
    obtain rfl := hg.distinct j i _ hj ⟨n, hn, rfl⟩
    obtain ⟨m, qs, hm, hqs⟩ := isExpanded_iff.1 hexpanded
    rw [hn] at hm
    cases hm
    rw [hnone] at hqs
    cases hqs
  · rw [asked_map, if_pos]
    refine Classical.byContradiction fun hne => hno (h.settled ?_)
    obtain ⟨j, hj, hexpanded⟩ := hx
    have hji : i ≠ j := by
      rintro rfl
      exact hne (hi.unique (calls_settle_iff.1 hj))
    obtain ⟨m, qs, hm, hqs⟩ := isExpanded_iff.1 hexpanded
    rw [nodes_settle, if_neg hji] at hm
    exact ⟨j, calls_settle_iff.1 hj, isExpanded_iff.2 ⟨m, qs, hm, hqs⟩⟩
  · rw [asked_map, if_neg]
    rintro rfl
    exact hno hsettled

end PathGraph

namespace Exploring

open PathGraph

variable {σ : Type} [Sources σ] {f : Ancestry} {α β : Type} {B C : PathGraph → Prop} {Q R : α → PathGraph → Prop} {g : PathGraph}
  {qs : List (Category × Token)} {i : NodeId} {x : Identity} {s : Exploring (Noted σ)}

/-- The state: a sound graph, and the questions that were asked so far. -/
structure At (f : Ancestry) (g : PathGraph) (qs : List (Category × Token)) (s : Exploring (Noted σ)) : Prop where
  sound : Sound f False s
  graph : s.graph = g
  questions : s.context.sources.questions = qs

/-- From a sound graph with `B` an operation makes progress, with `Q` where it ends with a value, or it stops because a question failed. -/
def Asks (f : Ancestry) (B : PathGraph → Prop) (r : Run (Exploring (Noted σ)) α) (Q : α → PathGraph → Prop) : Prop :=
  ∀ g qs, B g → Act.Spec (At f g qs) r
    (fun a s => ∃ qs', At f s.graph (qs ++ qs') s ∧ g.Progress s.graph qs' ∧ Q a s.graph)
    fun e s => ∃ qs', At f s.graph (qs ++ qs') s ∧ g.Stopped s.graph qs' e

namespace Asks

theorem pure {a : α} (h : ∀ g, B g → Q a g) : Asks f B (Pure.pure a : Run (Exploring (Noted σ)) α) Q := by
  refine fun g qs hB => Act.Spec.pure fun s hs => ?_
  obtain rfl := hs.graph
  exact ⟨[], by rwa [List.append_nil], Progress.refl _, h _ hB⟩

theorem bind {r : Run (Exploring (Noted σ)) α} {k : α → Run (Exploring (Noted σ)) β} {Q : β → PathGraph → Prop} (h : Asks f B r R)
    (hk : ∀ a, Asks f (R a) (k a) Q) : Asks f B (r >>= k) Q := by
  refine fun g qs hB => (h g qs hB).bind fun a s hs => ?_
  obtain ⟨qs', hat, hprogress, hR⟩ := hs
  rcases (hk a s.graph (qs ++ qs') hR).outcome hat with ⟨b, s', hr, qs'', hat', hprogress', hQ⟩ | ⟨e, s', hr, qs'', hat', hstopped⟩
  · rw [hr]
    exact ⟨qs' ++ qs'', by rwa [← List.append_assoc], hprogress.trans hprogress', hQ⟩
  · rw [hr]
    exact ⟨qs' ++ qs'', by rwa [← List.append_assoc], hprogress.stopped hstopped⟩

theorem weaken {r : Run (Exploring (Noted σ)) α} (h : Asks f B r Q) (hB : ∀ g, C g → B g) (hQ : ∀ a g, Q a g → R a g) : Asks f C r R :=
  fun g qs hC => (h g qs (hB g hC)).weaken (fun _ hs => hs)
    (fun a _ ⟨qs', hat, hprogress, hq⟩ => ⟨qs', hat, hprogress, hQ a _ hq⟩) fun _ _ hs => hs

/-- What lasts is not lost. -/
theorem frame {r : Run (Exploring (Noted σ)) α} (h : Asks f B r Q) (hC : Lasting C) :
    Asks f (fun g => C g ∧ B g) r fun a g => C g ∧ Q a g :=
  fun g qs hB => (h g qs hB.2).weaken (fun _ hs => hs)
    (fun _ _ ⟨qs', hat, hprogress, hq⟩ => ⟨qs', hat, hprogress, hC _ _ hprogress.ext hB.1, hq⟩) fun _ _ hs => hs

end Asks

/-- What is logged is not asked. -/
theorem emit_at (e : Log.Event) {P : PathGraph → List (Category × Token) → Prop} :
    Act.Spec (fun s => ∃ qs', At f s.graph (qs ++ qs') s ∧ P s.graph qs') (inContext (Context.emit e) : Run (Exploring (Noted σ)) Unit)
      (fun _ s => ∃ qs', At f s.graph (qs ++ qs') s ∧ P s.graph qs') fun _ _ => False :=
  fun _ ⟨qs', hat, hP⟩ => ⟨qs', ⟨⟨hat.sound.graph, hat.sound.context.log _⟩, rfl, hat.questions⟩, hP⟩

/-- An operation that is logged asks as it does without the log. -/
theorem Asks.logged {r : Run (Exploring (Noted σ)) α} (h : Asks f B r Q) {target op : String} {fields : List (String × Log.Value)}
    {onSuccess : α → List (String × Log.Value)} {onFailure : List (String × Log.Value)} :
    Asks f B (Context.loggedBy (fun e => inContext (Context.emit e)) target op fields onSuccess onFailure r) Q := by
  refine fun g qs hB => Context.loggedBy_spec (h g qs hB) (fun e => ?_)
    (fun a e => emit_at e (P := fun g' qs' => g.Progress g' qs' ∧ Q a g')) fun e' e => emit_at e (P := fun g' qs' => g.Stopped g' qs' e')
  exact fun s hs => ⟨⟨hs.sound.graph, hs.sound.context.log _⟩, hs.graph, hs.questions⟩

/-! ## One expansion -/

/-- Categories are asked in order until one fails, and all that happens to the graph is that nodes are added. -/
theorem askAll_asks (t : Token) (cs : List Category) (found : List NodeId) (g : PathGraph) (qs : List (Category × Token)) :
    Act.Spec (fun s => s.graph = g ∧ s.context.sources.questions = qs) (askAll t cs found : Run (Exploring (Noted σ)) (List NodeId))
      (fun _ s => g.Grown s.graph ∧ s.context.sources.questions = qs ++ cs.map (·, t))
      fun e s => g.Grown s.graph ∧ ∃ done category cause, done ++ [category] <+: cs ∧
        s.context.sources.questions = qs ++ (done ++ [category]).map (·, t) ∧ e = .sourceFailed category t.display cause := by
  induction cs generalizing found g qs with
  | nil =>
    refine Act.Spec.pure fun s hs => ?_
    rw [hs.1, hs.2]
    exact ⟨Grown.refl g, (List.append_nil _).symm⟩
  | cons c cs ih =>
    have hask : Act.Spec (fun s => s.graph = g ∧ s.context.sources.questions = qs)
        (inContext (Context.ask c t) : Run (Exploring (Noted σ)) Answer)
        (fun _ s => s.graph = g ∧ s.context.sources.questions = qs ++ [(c, t)])
        fun e s => s.graph = g ∧ s.context.sources.questions = qs ++ [(c, t)] ∧ ∃ cause, e = .sourceFailed c t.display cause := by
      rintro s ⟨rfl, rfl⟩
      have hnoting := Context.ask_noting c t s.context
      unfold inContext Act.on
      rcases hr : Context.ask c t s.context with ⟨e | a, c'⟩
      · rw [hr] at hnoting
        exact ⟨rfl, hnoting.1, hnoting.2 e rfl⟩
      · rw [hr] at hnoting
        exact ⟨rfl, hnoting.1⟩
    refine (hask.weaken (fun _ h => h) (fun _ _ h => h) fun e s hs => ?_).bind fun a => ?_
    · obtain ⟨hg, hqs, cause, he⟩ := hs
      rw [hg]
      exact ⟨Grown.refl g, [], c, cause, ⟨cs, rfl⟩, hqs, he⟩
    · refine Act.Spec.bind (R := fun _ s => g.Grown s.graph ∧ s.context.sources.questions = qs ++ [(c, t)]) ?_ fun found' => ?_
      · intro s hs
        unfold link
        rw [hs.1]
        exact ⟨grown_link g found _, hs.2⟩
      · intro s hs
        refine (ih found' s.graph (qs ++ [(c, t)])).weaken (fun _ h => h) (fun _ s' hs' => ?_) (fun e s' hs' => ?_) s ⟨rfl, hs.2⟩
        · exact ⟨hs.1.trans hs'.1, by rw [hs'.2, List.append_assoc]; rfl⟩
        · obtain ⟨hgrown, done, category, cause, hprefix, hqs, he⟩ := hs'
          exact ⟨hs.1.trans hgrown, c :: done, category, cause, (List.prefix_cons_inj c).2 hprefix,
            by rw [hqs, List.append_assoc]; rfl, he⟩

/-- What is asked for the parents of a node: nothing if it is expanded, and otherwise all categories until one fails. -/
theorem parents_trace {n : Node} (hn : g.nodes[i]? = some n) (qs : List (Category × Token)) :
    Act.Spec (fun s => s.graph = g ∧ s.context.sources.questions = qs) (parents i : Run (Exploring (Noted σ)) (List NodeId))
      (fun ps s => (s.graph = g ∧ s.context.sources.questions = qs) ∨
        (n.parents = none ∧ ∃ g', g.Grown g' ∧ s.graph = g'.settle i ps ∧
          s.context.sources.questions = qs ++ askingOrder.map (·, n.token)))
      fun e s => n.parents = none ∧ g.Grown s.graph ∧ ∃ done category cause, done ++ [category] <+: askingOrder ∧
        s.context.sources.questions = qs ++ (done ++ [category]).map (·, n.token) ∧ e = .sourceFailed category n.token.display cause := by
  refine Act.Spec.get fun s hs => ?_
  have hnode : s.graph.node i = .ok n := by rw [hs.1, node_eq_ok_iff, hn]
  refine (Act.Spec.ofExcept hnode).bind fun m => Act.Spec.given ?_
  rintro rfl
  cases hps : m.parents with
  | some ps =>
    refine Act.Spec.pure fun s' hs' => Or.inl ?_
    rw [hs']
    exact hs
  | none =>
    refine Act.Spec.of_state (P := fun s => s.graph = g ∧ s.context.sources.questions = qs) ?_ hs
    refine ((askAll_asks m.token askingOrder [] g qs).weaken (fun _ h => h) (fun _ _ h => h) fun e s' hs' => ⟨rfl, hs'⟩).bind fun ps => ?_
    refine Act.Spec.bind (R := fun _ s => ∃ g', g.Grown g' ∧ s.graph = g'.settle i ps ∧
      s.context.sources.questions = qs ++ askingOrder.map (·, m.token)) ?_ fun _ => Act.Spec.pure fun s' hs' => Or.inr ⟨rfl, hs'⟩
    exact Act.Spec.modify fun s' hs' => ⟨s'.graph, hs'.1, rfl, hs'.2⟩

/-- Asking for the parents of a node makes progress, or it stops at that node. -/
theorem parents_asks (i : NodeId) (x : Identity) :
    Asks f (fun g => g.Calls i x) (parents i : Run (Exploring (Noted σ)) (List NodeId)) fun ps g => ∀ p ∈ ps, ∃ y, g.Calls p y := by
  rintro g qs hi s hs
  obtain ⟨n, hn, rfl⟩ := hi
  have hexplores : Explores f False (fun g => g.Calls i n.token.identity) (parents i : Run (Exploring (Noted σ)) (List NodeId)) _ :=
    parents_spec i n.token.identity
  have hend := hexplores (fun g' => g.Extends g') fun _ _ h h' => h'.trans h
  have hbegin : Sound f False s ∧ g.Extends s.graph ∧ s.graph.Calls i n.token.identity := by
    refine ⟨hs.sound, ?_⟩
    rw [hs.graph]
    exact ⟨Extends.refl g, n, hn, rfl⟩
  have hg : g.Sound f := hs.graph ▸ hs.sound.graph
  rcases (parents_trace hn qs).outcome ⟨hs.graph, hs.questions⟩ with ⟨ps, s', hr, hcases⟩ | ⟨e, s', hr, hnone, hgrown, hstopped⟩
  · obtain ⟨hsound, hext, -, hnames⟩ := hend.of_ok hbegin hr
    have hall : ∀ p ∈ ps, ∃ y, s'.graph.Calls p y := fun p hp => exists_calls_of_mem hnames hp
    rw [hr]
    rcases hcases with ⟨hsame, hqs⟩ | ⟨hnone, g', hgrown, hsettle, hqs⟩
    · refine ⟨[], ⟨hsound, rfl, by rw [hqs, List.append_nil]⟩, ?_, hall⟩
      rw [hsame]
      exact Progress.refl g
    · refine ⟨askingOrder.map (·, n.token), ⟨hsound, rfl, hqs⟩, ?_, hall⟩
      rw [hsettle] at hext ⊢
      exact hgrown.progress_settle hext hg hn hnone
  · obtain ⟨hsound, hext, -⟩ := hend.of_error hbegin hr
    obtain ⟨done, category, cause, hprefix, hqs, he⟩ := hstopped
    rw [hr]
    refine ⟨_, ⟨hsound, rfl, hqs⟩, [], done, category, i, n.token, cause, rfl, hprefix, hgrown.progress hext, he, ?_⟩
    rw [hgrown.kept i n hn, ← hnone]

/-! ## Calls -/

/-- Nodes that are there. -/
abbrev Present (ids : List NodeId) (g : PathGraph) : Prop := ∀ i ∈ ids, ∃ x, g.Calls i x

omit [Sources σ] in
theorem lasting_present (ids : List NodeId) : Lasting (Present ids) := fun _ _ h hids i hi =>
  (hids i hi).imp fun _ => h.calls

/-- What is asked for each of some nodes is asked for all of them, one after the other. -/
theorem gather_asks {q : NodeId → Run (Exploring (Noted σ)) (Option (List (List NodeId)))}
    (hq : ∀ i, Asks f (fun g => ∃ x, g.Calls i x) (q i) fun _ _ => True) (ids : List NodeId) :
    Asks f (Present ids) (gather q ids) fun _ _ => True := by
  induction ids with
  | nil => exact Asks.pure fun _ _ => trivial
  | cons i ids ih =>
    have hfirst : Asks f (Present (i :: ids)) (q i) fun _ g => Present ids g ∧ True :=
      ((hq i).frame (lasting_present ids)).weaken
        (fun g hg => ⟨fun j hj => hg j (List.mem_cons_of_mem i hj), hg i List.mem_cons_self⟩) fun _ _ h => h
    refine hfirst.bind fun a => ?_
    cases a with
    | none => exact Asks.pure fun _ _ => trivial
    | some bs =>
      refine (ih.weaken (fun g hg => hg.1) fun _ _ h => h).bind fun a => ?_
      cases a with
      | none => exact Asks.pure fun _ _ => trivial
      | some bs' => exact Asks.pure fun _ _ => trivial

theorem pathsWithin_asks (n : Nat) (before : List NodeId) (last : NodeId) :
    Asks f (fun g => ∃ x, g.Calls last x) (pathsWithin n before last : Run (Exploring (Noted σ)) (Option (List (List NodeId))))
      fun _ _ => True := by
  induction n generalizing before last with
  | zero => exact Asks.pure fun _ _ => trivial
  | succ n ih =>
    refine Asks.bind (R := Present) (fun g qs hg => ?_) fun ps => ?_
    · obtain ⟨x, hx⟩ := hg
      exact parents_asks last x g qs hx
    · dsimp only
      split
      · exact Asks.pure fun _ _ => trivial
      · refine ((gather_asks (fun i => ih (last :: before) i) _).weaken (fun g hg i hi => hg i (List.mem_filter.1 hi).1)
          fun _ _ h => h).bind fun a => ?_
        cases a with
        | none => exact Asks.pure fun _ _ => trivial
        | some paths => exact Asks.pure fun _ _ => trivial

theorem allPaths_asks (limit : Nat) (i : NodeId) :
    Asks f (fun g => ∃ x, g.Calls i x) (allPaths limit i : Run (Exploring (Noted σ)) (Option (List (List Token)))) fun _ _ => True := by
  have hlist : Asks f (fun g => ∃ x, g.Calls i x)
      (do
        let paths ← pathsWithin limit [] i
        let g := (← Act.get).graph
        pure (paths.map (·.map g.tokens), g.size) : Run (Exploring (Noted σ)) (Option (List (List Token)) × Nat)) fun _ _ => True := by
    refine (pathsWithin_asks limit [] i).bind fun paths g qs _ => Act.Spec.get fun s hs => ?_
    exact Asks.pure (B := fun _ => True) (Q := fun _ _ => True) (fun _ _ => trivial) g qs trivial |>.of_state hs
  refine fun g qs hg => Act.Spec.get fun s hs => ?_
  obtain ⟨x, n, hn, hx⟩ := hg
  have htoken : s.graph.token i = .ok n.token := by rw [hs.graph, token_eq_ok_iff]; exact ⟨n, hn, rfl⟩
  refine (Act.Spec.ofExcept htoken).bind fun t => Act.Spec.given fun _ => ?_
  exact hlist.logged.bind (Q := fun _ _ => True) (fun _ => Asks.pure fun _ _ => trivial) g qs ⟨x, n, hn, hx⟩ |>.of_state hs

/-- A call about a node that is there makes progress, or it stops because a question failed. -/
theorem call_asks (call : Call) : Asks f (fun g => ∃ x, g.Calls call.node x) (call.run : Run (Exploring (Noted σ)) Unit)
    fun _ _ => True := by
  cases call with
  | parents i =>
    refine Asks.bind (R := fun _ _ => True) (fun g qs hg => ?_) fun _ => Asks.pure fun _ _ => trivial
    obtain ⟨x, hx⟩ := hg
    exact ((parents_asks i x).weaken (fun _ h => h) fun _ _ _ => trivial) g qs hx
  | allPaths limit i => exact (allPaths_asks limit i).bind fun _ => Asks.pure fun _ _ => trivial

variable {c : Context σ} {call : Call}

/-- A call about a node that is not there does nothing. -/
theorem Call.run_of_missing (h : g.size ≤ call.node) : call.run ⟨g, c⟩ = (.error (.unknownNode call.node), ⟨g, c⟩) := by
  have hnode : ∀ i, g.size ≤ i → g.node i = .error (.unknownNode i) := fun i hi => by
    rw [PathGraph.node, Array.getElem?_eq_none hi]
  cases call with
  | parents i =>
    rw [Call.run, Exploring.parents]
    simp only [Act.bind_apply, Act.get_apply, hnode i h]
    rfl
  | allPaths limit i =>
    rw [Call.run, Exploring.allPaths]
    simp only [Act.bind_apply, Act.get_apply, PathGraph.token, hnode i h]
    rfl

/-- What a call leads to may be told from where the questions are noted. -/
theorem Call.run_eq_noting (call : Call) (g : PathGraph) (c : Context σ) :
    (call.run ⟨g, c⟩).1 = (call.run ⟨g, Context.noting c.sources⟩).1 ∧
      (call.run ⟨g, c⟩).2.graph = (call.run ⟨g, Context.noting c.sources⟩).2.graph := by
  obtain ⟨hresult, hgraph, -⟩ := call.run_unnoted ⟨g, Context.noting c.sources⟩ ⟨g, c⟩ ⟨rfl, rfl⟩
  exact ⟨hresult.eq.symm, hgraph⟩

/-- How a call about a node that is there ends. -/
theorem call_outcome (hg : g.Sound f) (hc : Sources.Agree f c.sources) (hi : ∃ x, g.Calls call.node x) :
    (call.run ⟨g, c⟩).2.graph.Sound f ∧
      (((call.run ⟨g, c⟩).1 = .ok () ∧ g.Progress (call.run ⟨g, c⟩).2.graph (call.questions g c.sources)) ∨
        ∃ e, (call.run ⟨g, c⟩).1 = .error e ∧ g.Stopped (call.run ⟨g, c⟩).2.graph (call.questions g c.sources) e) := by
  obtain ⟨hresult, hgraph⟩ := call.run_eq_noting g c
  rw [hresult, hgraph, Call.questions]
  have hat : At f g [] ⟨g, Context.noting c.sources⟩ := ⟨⟨hg, Context.faithful_noting hc fun h => h.elim⟩, rfl, rfl⟩
  rcases (call_asks call g [] hi).outcome hat with ⟨u, s, hr, qs, hs, hprogress, -⟩ | ⟨e, s, hr, qs, hs, hstopped⟩
  · rw [hr]
    refine ⟨hs.sound.graph, Or.inl ⟨rfl, ?_⟩⟩
    rw [hs.questions]
    exact hprogress
  · rw [hr]
    refine ⟨hs.sound.graph, Or.inr ⟨e, rfl, ?_⟩⟩
    rw [hs.questions]
    exact hstopped

end Exploring

namespace PathGraph

/-- The graphs of a root that exploring leads to. Each call may meet other sources than the one before, which may fail at any question as
long as their answers are those of the ancestry, and it may be about a node that is not there. -/
inductive Tried (f : Ancestry) (root : Token) : PathGraph → Prop where
  | start : Tried f root (start root)
  | called {σ : Type} [Sources σ] {g : PathGraph} {c : Context σ} (call : Exploring.Call) :
      Tried f root g → Sources.Agree f c.sources → Tried f root (call.run (⟨g, c⟩ : Exploring σ)).2.graph

/-- They are sound. -/
theorem Tried.sound {f : Ancestry} {root : Token} {g : PathGraph} (h : Tried f root g) : g.Sound f := by
  induction h with
  | start => exact sound_start f root
  | @called σ _ g c call _ hc ih =>
    rcases Nat.lt_or_ge call.node g.size with hlt | hle
    · exact (Exploring.call_outcome ih hc ⟨_, _, Array.getElem?_eq_getElem hlt, rfl⟩).1
    · rw [Exploring.Call.run_of_missing hle]
      exact ih

end PathGraph

namespace Exploring

open PathGraph

variable {σ : Type} [Sources σ] {f : Ancestry} {g : PathGraph} {c : Context σ} {i : NodeId} {t : Token} {limit : Nat}

/-! ## Paths after failures -/

omit [Sources σ] in
/-- Identities are added as tokens are, each once. -/
theorem adding_map_identity (seen ts : List Token) :
    Ancestry.adding (seen.map Token.identity) ts = (Token.addNew seen ts).map Token.identity := by
  induction ts generalizing seen with
  | nil => rfl
  | cons t ts ih =>
    rw [Ancestry.adding_cons]
    by_cases ht : ∃ s ∈ seen, s.identity = t.identity
    · rw [if_pos (List.mem_map.2 ht), Token.addNew_cons_of_mem ht, ih]
    · rw [if_neg (mt List.mem_map.1 ht), Token.addNew_cons_of_not_mem ht, ← ih, List.map_append, List.map_singleton]

/-- Where a search for paths ends, it lists what the ancestry lists, whatever failed before. If the sources do not fail, it ends. -/
theorem allPaths_of_tried (hg : g.Sound f) (hc : Sources.Agree f c.sources) (hi : g.token i = .ok t) (limit : Nat) :
    (∀ paths s, allPaths limit i ⟨g, c⟩ = (.ok paths, s) → paths.map (·.map (·.map Token.identity)) = f.pathsFrom limit [] t.identity) ∧
      (Sources.Answering c.sources → ∃ paths s, allPaths limit i ⟨g, c⟩ = (.ok paths, s)) := by
  have hbeside : Act.Mirrors (Beside Context.Unnoted) Eq (allPaths limit i : Run (Exploring (Noted σ)) _) (allPaths limit i) :=
    allPaths_beside Context.ask_unnoted Context.emit_unnoted limit i
  obtain ⟨hresult, -⟩ := hbeside ⟨g, Context.noting c.sources⟩ ⟨g, c⟩ ⟨rfl, rfl⟩
  replace hresult := hresult.eq
  refine ⟨fun paths s hr => ?_, fun hanswering => ?_⟩
  · rw [hr] at hresult
    rcases hr' : allPaths limit i (⟨g, Context.noting c.sources⟩ : Exploring (Noted σ)) with ⟨r, s'⟩
    rw [hr'] at hresult
    subst hresult
    have hs : Sound f False ⟨g, Context.noting c.sources⟩ := ⟨hg, Context.faithful_noting hc fun h => h.elim⟩
    have hexplores : Explores f False (fun g => g.Calls i t.identity) (allPaths limit i : Run (Exploring (Noted σ)) _) _ :=
      allPaths_spec limit i t.identity
    exact ((hexplores _ (lasting_root g.root)).of_ok ⟨hs, rfl, calls_of_token hi⟩ hr').2.2.identities
  · have hs : Sound f True ⟨g, Context.noting c.sources⟩ := ⟨hg, Context.faithful_noting hc fun _ => hanswering⟩
    have hexplores : Explores f True (fun g => g.Calls i t.identity) (allPaths limit i : Run (Exploring (Noted σ)) _) _ :=
      allPaths_spec limit i t.identity
    rcases (hexplores _ (lasting_root g.root)).outcome ⟨hs, rfl, calls_of_token hi⟩ with ⟨r, s, hr, -⟩ | ⟨e, s, -, -, -, hno⟩
    · rw [hr] at hresult
      exact ⟨r, (allPaths limit i ⟨g, c⟩).2, Prod.ext hresult.symm rfl⟩
    · exact absurd trivial hno

/-- In a graph that was explored without failures, a search for paths lists what the ancestry lists. -/
theorem allPaths_of_explored {root : Token} (hg : Explored f root g) (hc : c.Stable f) (hi : g.token i = .ok t) (limit : Nat) :
    ∃ paths s, allPaths limit i ⟨g, c⟩ = (.ok paths, s) ∧
      paths.map (·.map (·.map Token.identity)) = f.pathsFrom limit [] t.identity := by
  have hs : Sound f True ⟨g, c⟩ := ⟨hg.sound.1, hc⟩
  have hexplores : Explores f True (fun g => g.Calls i t.identity) (allPaths limit i : Run (Exploring σ) _) _ :=
    allPaths_spec limit i t.identity
  rcases (hexplores _ (lasting_root g.root)).outcome ⟨hs, rfl, calls_of_token hi⟩ with
    ⟨paths, s, hr, -, -, hspells⟩ | ⟨e, s, -, -, -, hno⟩
  · exact ⟨paths, s, hr, hspells.identities⟩
  · exact absurd trivial hno

/-- A path graph recovers from failures of its sources, as long as they answer as one ancestry does whenever they answer. At any time
every identity has one node, and the parents of an expanded node are there, and are what the native, the auxiliary and the hooking
answer about it name, each object once. A call leaves every expanded node as it was. It asks nothing about an identity whose node is
expanded, and about one whose node it expands it asks each category once. If it fails, then because the node it is about is not there,
and nothing was asked or done, or because the last question failed: then the node with the token of that question is not expanded, and
besides it nothing was asked about any node that is not. All paths from a node, if they are listed at all, are those that are listed in
any graph that was explored without failures, such as a fresh one of that node, and they are listed as soon as no question fails. -/
theorem recovers {root : Token} (hg : Tried f root g) (hc : Sources.Agree f c.sources) :
    (∀ (i j : NodeId) (n m : PathGraph.Node), g.nodes[i]? = some n → g.nodes[j]? = some m → n.token.identity = m.token.identity → i = j) ∧
    (∀ (i : NodeId) (n : PathGraph.Node) (ps : List NodeId), g.nodes[i]? = some n → n.parents = some ps → (∀ p ∈ ps, p < g.size) ∧
      (g.tokens ps).map Token.identity =
        (Token.distinct (askingOrder.flatMap fun category => (f category n.token.identity).getD [])).map Token.identity) ∧
    (∀ (call : Call) (r : Except Error Unit) (s : Exploring σ) (qs : List (Category × Token)),
      call.run (⟨g, c⟩ : Exploring σ) = (r, s) → call.questions g c.sources = qs →
      (∀ (i : NodeId) (n : PathGraph.Node) (ps : List NodeId), g.nodes[i]? = some n → n.parents = some ps → s.graph.nodes[i]? = some n) ∧
      (∀ x, g.Settled x → asked qs x = []) ∧
      (∀ x, ¬g.Settled x → s.graph.Settled x → asked qs x = askingOrder) ∧
      (r = .ok () → ∀ x, ¬s.graph.Settled x → asked qs x = []) ∧
      ∀ e, r = .error e → (e = .unknownNode call.node ∧ g.size ≤ call.node ∧ qs = [] ∧ s.graph = g) ∨
        ∃ (category : Category) (i : NodeId) (t : Token) (cause : String),
          e = .sourceFailed category t.display cause ∧ qs.getLast? = some (category, t) ∧
          s.graph.nodes[i]? = some ⟨t, none⟩ ∧ asked qs t.identity <+: askingOrder ∧
          ∀ x, x ≠ t.identity → ¬s.graph.Settled x → asked qs x = []) ∧
    ∀ (limit : Nat) (i : NodeId) (t : Token), g.token i = .ok t →
      (∀ paths s, allPaths limit i ⟨g, c⟩ = (.ok paths, s) →
        ∀ {τ : Type} [Sources τ] {c₀ : Context τ} {root₀ t₀ : Token} {g₀ : PathGraph} {j : NodeId}, Explored f root₀ g₀ →
          c₀.Stable f → g₀.token j = .ok t₀ → t₀.identity = t.identity → ∃ paths₀ s₀, allPaths limit j ⟨g₀, c₀⟩ = (.ok paths₀, s₀) ∧
            paths.map (·.map (·.map Token.identity)) = paths₀.map (·.map (·.map Token.identity))) ∧
      (Sources.Answering c.sources → ∃ paths s, allPaths limit i ⟨g, c⟩ = (.ok paths, s)) := by
  have hsound := hg.sound
  refine ⟨fun i j n m hn hm hnm => hsound.distinct i j _ ⟨n, hn, hnm⟩ ⟨m, hm, rfl⟩, fun i n ps hn hps => ?_,
    fun call r s qs hr hqs => ?_, fun limit i t hi => ?_⟩
  · have hnames := hsound.linked i n ps hn hps
    refine ⟨fun p hp => ?_, ?_⟩
    · obtain ⟨y, hy⟩ := exists_calls_of_mem hnames hp
      exact hy.lt_size
    · rw [identities_tokens hnames, Ancestry.parentIds, parents_both, Token.distinct_eq_addNew, ← adding_map_identity, List.map_nil]
  · rcases Nat.lt_or_ge call.node g.size with hlt | hle
    · have hi : ∃ x, g.Calls call.node x := ⟨_, _, Array.getElem?_eq_getElem hlt, rfl⟩
      obtain ⟨hsound', hend⟩ := call_outcome hsound hc hi
      rw [hr, hqs] at hend
      rw [hr] at hsound'
      rcases hend with ⟨rfl, hprogress⟩ | ⟨e, rfl, hstopped⟩
      · exact ⟨fun i n ps hn hps => hprogress.ext.node_eq hn hps, hprogress.before, hprogress.since, fun _ => hprogress.never,
          fun e he => by cases he⟩
      · obtain ⟨hext, category, i, t, cause, he, hlast, hi, hprefix, hbefore, hsince, hnever⟩ := hstopped.asked_eq hsound'
        refine ⟨fun i n ps hn hps => hext.node_eq hn hps, hbefore, hsince, (fun h => by cases h), fun e' he' => ?_⟩
        cases he'
        exact Or.inr ⟨category, i, t, cause, he, hlast, hi, hprefix, hnever⟩
    · rw [Call.run_of_missing hle] at hr
      obtain ⟨rfl, rfl⟩ := Prod.mk.inj hr
      have hnone : qs = [] := by
        rw [← hqs, Call.questions, Call.run_of_missing hle]
        rfl
      subst hnone
      refine ⟨fun i n ps hn _ => hn, fun _ _ => rfl, fun _ hno hx => absurd hx hno, (fun h => by cases h), fun e he => ?_⟩
      cases he
      exact Or.inl ⟨rfl, hle, rfl, rfl⟩
  · obtain ⟨hpaths, hanswering⟩ := allPaths_of_tried hsound hc hi limit
    refine ⟨fun paths s hr τ _ c₀ root₀ t₀ g₀ j hg₀ hc₀ hj hsame => ?_, hanswering⟩
    obtain ⟨paths₀, s₀, hr₀, hpaths₀⟩ := allPaths_of_explored hg₀ hc₀ hj limit
    refine ⟨paths₀, s₀, hr₀, ?_⟩
    rw [hpaths paths s hr, hpaths₀, hsame]

/-- A page with a native parent and a hooked one. The hooking source fails when it is asked about the page, after the native parent got a
node. What is listed afterwards is what is listed in a fresh graph. -/
theorem recovers_hooked :
    let a := Token.element "page" "site" "1"
    let b := Token.element "page" "site" "2"
    let d := Token.element "page" "site" "3"
    let f := Ancestry.ofTables ((Listing.empty.add a b).add b d) (Hooks.empty.add a d)
    let sources (faults : List Nat) : Faulty := ⟨f, faults, 0⟩
    let g := ((Call.allPaths 4 0).run (⟨PathGraph.start a, Context.new (sources [2]) {}⟩ : Exploring Faulty)).2.graph
    Tried f a g ∧ g.size = 2 ∧ g.isExpanded 0 = false ∧
      ∃ paths s paths₀ s₀, allPaths 4 0 (⟨g, Context.new (sources []) {}⟩ : Exploring Faulty) = (.ok (some paths), s) ∧
        paths.length = 2 ∧ allPaths 4 0 ⟨PathGraph.start a, Context.ideal f⟩ = (.ok paths₀, s₀) ∧
        some (paths.map (·.map Token.identity)) = paths₀.map (·.map (·.map Token.identity)) := by
  intro a b d f sources g
  have hg : Tried f a g := .called (.allPaths 4 0) .start (Faulty.agree (sources [2]))
  have hcount : ((allPaths 4 0 (⟨g, Context.new (sources []) {}⟩ : Exploring Faulty)).1.toOption.map
      fun paths => paths.map List.length) = some (some 2) := by decide +kernel
  obtain ⟨found, s, hr, hlength⟩ := Act.exists_of_map_eq_some hcount
  obtain ⟨paths, rfl, hpaths⟩ := Option.map_eq_some_iff.1 hlength
  have hgood : Sources.Agree f (Context.new (sources []) {}).sources := Faulty.agree (sources [])
  obtain ⟨-, -, -, hfresh⟩ := recovers hg hgood
  have hstart : (PathGraph.start a).token 0 = .ok a := rfl
  obtain ⟨paths₀, s₀, hr₀, hsame⟩ := (hfresh 4 0 a (by decide +kernel)).1 _ s hr .start (Context.stable_ideal f) hstart rfl
  exact ⟨hg, by decide +kernel, by decide +kernel, paths, s, paths₀, s₀, hr, hpaths, hr₀, hsame⟩

end Exploring
end Lineage
