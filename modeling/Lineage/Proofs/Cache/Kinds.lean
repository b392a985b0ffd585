import Lineage.Source.Catalog
import Lineage.Proofs.Cache.History
import Lineage.Proofs.Faithful

/-!
# Kept answers and the kinds of tokens

The cache keeps answers by user and identity; auxiliary providers are chosen by kind. An answer from the cache is therefore an answer of
the sources, but perhaps one about another token of the same identity, which was asked about earlier: `Accounts` says which one.
`kept_answers` says when that can make a difference. It never does for native parents. For the merged rest it makes none exactly if the
cache keeps nothing, or what the sources say does not depend on the kind.
-/

namespace Lineage

/-- Sources whose replies do not depend on the questions before. -/
def Sources.Steady {σ : Type} [Sources σ] (s : σ) : Prop :=
  ∀ s', Sources.Leads s s' → ∀ category t, (Sources.ask category t s').1 = (Sources.ask category t s).1

/-! ## Catalogs are steady -/

namespace Catalog

/-- The catalog without the questions that were asked of it. -/
def bare (c : Catalog) : Catalog := { c with queries := #[] }

variable {c d : Catalog}

/-- The reply of a named provider does not depend on earlier questions. -/
theorem askNamed_bare (h : c.bare = d.bare) (name : String) (t : Token) :
    (askNamed name t c).1 = (askNamed name t d).1 ∧ (askNamed name t c).2.bare = c.bare := by
  have hnamed : c.named = d.named := (congrArg named h :)
  unfold askNamed
  rw [hnamed]
  split <;> exact ⟨rfl, rfl⟩

/-- Nor do those of several, asked one after the other. -/
theorem consult_bare (h : c.bare = d.bare) (t : Token) (names : List String) :
    (Auxiliary.consult askNamed t names c).1 = (Auxiliary.consult askNamed t names d).1 ∧
      (Auxiliary.consult askNamed t names c).2.bare = c.bare := by
  induction names generalizing c d with
  | nil => exact ⟨rfl, rfl⟩
  | cons name names ih =>
    obtain ⟨hreply, hc⟩ := askNamed_bare h name t
    have hd := (askNamed_bare h.symm name t).2
    rcases hask : askNamed name t c with ⟨reply, c'⟩
    rcases hask' : askNamed name t d with ⟨reply', d'⟩
    simp only [hask, hask'] at hreply hc hd
    subst hreply
    cases reply with
    | error text =>
      simp only [Auxiliary.consult, hask, hask']
      exact ⟨trivial, hc⟩
    | ok answer =>
      obtain ⟨hrest, hc'⟩ := ih (hc.trans (h.trans hd.symm))
      rcases hconsult : Auxiliary.consult askNamed t names c' with ⟨rest, c''⟩
      rcases hconsult' : Auxiliary.consult askNamed t names d' with ⟨rest', d''⟩
      simp only [hconsult, hconsult'] at hrest hc'
      subst hrest
      simp only [Auxiliary.consult, hask, hask', hconsult, hconsult']
      cases rest <;> exact ⟨rfl, hc'.trans hc⟩

theorem ask_bare (h : c.bare = d.bare) (category : Category) (t : Token) :
    (Sources.ask category t c).1 = (Sources.ask category t d).1 ∧ (Sources.ask category t c).2.bare = c.bare := by
  cases category with
  | native => exact ⟨(congrArg (·.native.reply t) h :), rfl⟩
  | auxiliary =>
    have hregistry : c.registry = d.registry := (congrArg registry h :)
    show (Auxiliary.consult askNamed t (c.registry.providersFor t.kind) c).1 = (Auxiliary.consult askNamed t _ d).1 ∧ _
    rw [← hregistry]
    exact consult_bare h t _
  | hooking => exact ⟨(congrArg (·.hooked t) h :), rfl⟩

/-- A catalog says the same whatever was asked of it before. -/
theorem steady (c : Catalog) : Sources.Steady c := by
  intro d hl category t
  have hd : d.bare = c.bare := by
    induction hl with
    | refl => rfl
    | ask category t _ ih => exact (ask_bare rfl category t).2.trans ih
  exact (ask_bare hd category t).1

end Catalog

namespace Context

/-! ## What lookups find -/

/-- A question that is asked through the cache. -/
structure Question where
  scope : Scope
  branch : Branch
  token : Token
  deriving DecidableEq, Repr

section Asking

variable {σ : Type} [Sources σ] {c c' c₀ : Context σ} {b : Branch} {scope : Scope} {t t' : Token} {a : Answer} {e : Cache.Entry}
  {q : Question} {asked : List Question}

/-- What the sources say on a branch when they are asked themselves. -/
def plain (b : Branch) (t : Token) (c : Context σ) : Except Error Answer := (askBranch b t c).1

/-- The answer to a question. -/
def answer (q : Question) (c : Context σ) : Except Error Answer := (parents q.scope q.branch q.token c).1

/-- The context after some questions. -/
def afterAsked (c : Context σ) (asked : List Question) : Context σ :=
  asked.foldl (fun c q => (parents q.scope q.branch q.token c).2) c

/-- What the cache has for a question, if anything. -/
def found? (q : Question) (c : Context σ) : Option Cache.Entry := (c.cache.lookup q.branch q.scope q.token).1

/-- Nothing was done with `c` but asking its sources. -/
structure Asks (c c' : Context σ) : Prop where
  leads : Sources.Leads c.sources c'.sources
  cache : c'.cache = c.cache

theorem keeps_ask (c : Context σ) (category : Category) (t : Token) : Act.Keeps (Asks c) (ask category t) := by
  intro c' hc'
  have hl := hc'.leads.trans (Sources.leads_ask category t c'.sources)
  unfold ask
  rcases hr : Sources.ask category t c'.sources with ⟨_ | _, sources⟩
  · rw [hr] at hl
    exact ⟨hl, hc'.cache⟩
  · rw [hr] at hl
    exact ⟨hl, hc'.cache⟩

theorem keeps_askBranch (c : Context σ) (b : Branch) (t : Token) : Act.Keeps (Asks c) (askBranch b t) := by
  cases b with
  | native => exact keeps_ask c .native t
  | hooked => exact (keeps_ask c _ t).bind fun _ => (keeps_ask c _ t).bind fun _ => Act.Keeps.pure _

/-! ## Steady sources -/

/-- The reply to one question is that of the sources. -/
theorem ask_fst (category : Category) (t : Token) (c : Context σ) :
    (ask category t c).1 = (Sources.ask category t c.sources).1.mapError fun cause => .sourceFailed category t.display cause := by
  unfold ask
  rcases Sources.ask category t c.sources with ⟨_ | _, sources⟩ <;> rfl

/-- Steady sources say the same later. -/
theorem ask_fst_of_leads (hs : Sources.Steady c.sources) (hl : Sources.Leads c.sources c'.sources) (category : Category)
    (t : Token) : (ask category t c').1 = (ask category t c).1 := by
  rw [ask_fst, ask_fst, hs _ hl]

/-- What steady sources say when they are merged does not depend on the order of the questions. -/
theorem plain_hooked (hs : Sources.Steady c.sources) (t : Token) :
    plain .hooked t c = ((ask .auxiliary t c).1.bind fun x => (ask .hooking t c).1.map fun y => x.merge y) := by
  have hask := keeps_ask c .auxiliary t c ⟨Sources.Leads.refl _, rfl⟩
  show (askMerged t c).1 = _
  unfold askMerged
  rcases hx : ask .auxiliary t c with ⟨_ | x, c'⟩
  · rw [Act.bind_of_error hx]
    rfl
  · rw [hx] at hask
    rw [Act.bind_of_ok hx, ← ask_fst_of_leads hs hask.leads]
    rcases hy : ask .hooking t c' with ⟨_ | y, c''⟩
    · rw [Act.bind_of_error hy]
      rfl
    · rw [Act.bind_of_ok hy]
      rfl

theorem plain_of_leads (hs : Sources.Steady c.sources) (hl : Sources.Leads c.sources c'.sources) (b : Branch) (t : Token) :
    plain b t c' = plain b t c := by
  cases b with
  | native => exact ask_fst_of_leads hs hl .native t
  | hooked =>
    have hs' : Sources.Steady c'.sources := fun s hl' category t => by rw [hs s (hl.trans hl'), hs _ hl]
    rw [plain_hooked hs, plain_hooked hs', ask_fst_of_leads hs hl, ask_fst_of_leads hs hl]

/-! ## Which token an answer is about -/

/-- Every kept answer is one that the sources give for a token of its identity, which was asked about before, under its user and on its
branch. -/
structure Accounts (c₀ : Context σ) (asked : List Question) (c : Context σ) : Prop where
  leads : Sources.Leads c₀.sources c.sources
  settings : c.cache.settings = c₀.cache.settings
  kept : c.cache.Every fun b k e => 0 < c₀.cache.settings.maxSize ∧ e.token.identity = k.identity ∧
    ⟨some k.user, b, e.token⟩ ∈ asked ∧ plain b e.token c₀ = .ok e.parents

theorem accounts_flush (c₀ : Context σ) : Accounts c₀ [] (flush c₀).2 :=
  ⟨Sources.Leads.refl _, rfl, Cache.every_clear _ _⟩

/-- More may have been asked. -/
theorem Accounts.append (h : Accounts c₀ asked c) (more : List Question) : Accounts c₀ (asked ++ more) c where
  leads := h.leads
  settings := h.settings
  kept b k e he := by
    obtain ⟨hroom, hidentity, hasked, hplain⟩ := h.kept b k e he
    exact ⟨hroom, hidentity, List.mem_append_left _ hasked, hplain⟩

theorem Accounts.lookup (h : Accounts c₀ asked c) (b : Branch) (scope : Scope) (t : Token) :
    Act.Spec (· = c) (Context.lookup b scope t)
      (fun found c' => found = (c.cache.lookup b scope t).1 ∧ Accounts c₀ asked c') fun _ _ => False := by
  refine (lookup_effect b scope t c).weaken (fun _ hc => hc) (fun found c' hc' => ?_) fun _ _ hx => hx
  obtain ⟨hfound, hcache, hsources⟩ := hc'
  refine ⟨hfound, by rw [hsources]; exact h.leads, ?_, by rw [hcache]; exact h.kept.lookup b scope t⟩
  rw [hcache, Cache.settings_lookup, h.settings]

/-- Asking the sources of a branch, now, gives what they said at the beginning. -/
theorem accounts_askBranch (hs : Sources.Steady c₀.sources) (b : Branch) (t : Token) :
    Act.Spec (Accounts c₀ asked) (askBranch b t) (fun a c => plain b t c₀ = .ok a ∧ Accounts c₀ asked c)
      fun x c => plain b t c₀ = .error x ∧ Accounts c₀ asked c := by
  intro c hc
  have hasks := keeps_askBranch c b t c ⟨Sources.Leads.refl _, rfl⟩
  have hafter : Accounts c₀ asked (askBranch b t c).2 :=
    ⟨hc.leads.trans hasks.leads, by rw [hasks.cache, hc.settings], by rw [hasks.cache]; exact hc.kept⟩
  rw [← plain_of_leads hs hc.leads, plain]
  rcases hr : askBranch b t c with ⟨x | a, c'⟩
  · exact ⟨rfl, by rw [hr] at hafter; exact hafter⟩
  · exact ⟨rfl, by rw [hr] at hafter; exact hafter⟩

/-- What the sources say about a token that was asked about may be kept. -/
theorem accounts_keep (hplain : plain b t c₀ = .ok a) (hasked : ⟨scope, b, t⟩ ∈ asked) :
    Act.Spec (Accounts c₀ asked) (keep b scope t a) (fun _ => Accounts c₀ asked) fun _ _ => False := by
  intro c hc
  obtain ⟨_, c', hr, hcache, hsources⟩ | ⟨_, _, _, hx⟩ := (keep_effect b scope t a c).outcome rfl
  · rw [hr]
    refine ⟨by rw [hsources]; exact hc.leads, by rw [hcache, Cache.settings_add, hc.settings], ?_⟩
    rw [hcache]
    refine hc.kept.add fun user hu hroom => ?_
    rw [(Cache.userFor_eq_some hu).2] at hasked
    exact ⟨hc.settings ▸ hroom, rfl, hasked, hplain⟩
  · exact hx.elim

/-- One more question. What the cache has for it is the answer, otherwise the sources give it. -/
theorem Accounts.parents (hs : Sources.Steady c₀.sources) (h : Accounts c₀ asked c) (q : Question) :
    Act.Spec (· = c) (Context.parents q.scope q.branch q.token)
      (fun a c' => ((∃ e, found? q c = some e ∧ a = e.parents) ∨
        (found? q c = none ∧ plain q.branch q.token c₀ = .ok a)) ∧ Accounts c₀ (asked ++ [q]) c')
      fun x c' => (found? q c = none ∧ plain q.branch q.token c₀ = .error x) ∧ Accounts c₀ (asked ++ [q]) c' := by
  refine ((h.append [q]).lookup q.branch q.scope q.token).never.bind fun found => Act.Spec.given fun hfound => ?_
  cases found with
  | some e => exact Act.Spec.pure fun c' hc' => ⟨Or.inl ⟨e, hfound.symm, rfl⟩, hc'⟩
  | none =>
    refine (accounts_askBranch hs q.branch q.token).weaken (fun _ h => h) (fun _ _ h => h)
      (fun _ _ hx => ⟨⟨hfound.symm, hx.1⟩, hx.2⟩) |>.bind fun a => Act.Spec.given fun hplain => ?_
    have hasked : q ∈ asked ++ [q] := List.mem_append_right _ List.mem_cons_self
    exact (accounts_keep hplain hasked).never.bind fun _ => Act.Spec.pure fun _ hc' => ⟨Or.inr ⟨hfound.symm, hplain⟩, hc'⟩

theorem afterAsked_append (c : Context σ) (asked more : List Question) :
    c.afterAsked (asked ++ more) = (c.afterAsked asked).afterAsked more :=
  List.foldl_append

/-- After any questions, every kept answer is accounted for. -/
theorem accounts_afterAsked (hs : Sources.Steady c₀.sources) (asked : List Question) :
    Accounts c₀ asked ((flush c₀).2.afterAsked asked) := by
  induction asked using List.reverseRecOn with
  | nil => exact accounts_flush c₀
  | append_singleton asked q ih =>
    rw [afterAsked_append]
    show Accounts c₀ (asked ++ [q]) (Context.parents q.scope q.branch q.token ((flush c₀).2.afterAsked asked)).2
    obtain ⟨_, c, hr, -, hc⟩ | ⟨_, c, hr, -, hc⟩ := (ih.parents hs q).outcome rfl
    · rw [hr]
      exact hc
    · rw [hr]
      exact hc

/-- What the cache has for a question is an answer of the sources, about a token of the same identity that was asked about before, by the
same user and on the same branch. -/
theorem Accounts.of_found (h : Accounts c₀ asked c) (hfound : found? q c = some e) :
    c₀.cache.settings.enabled = true ∧ 0 < c₀.cache.settings.maxSize ∧ e.token.same q.token = true ∧
      ⟨q.scope, q.branch, e.token⟩ ∈ asked ∧ plain q.branch e.token c₀ = .ok e.parents := by
  obtain ⟨user, hu, hfind⟩ := Cache.exists_of_lookup hfound
  obtain ⟨he, hscope⟩ := Cache.userFor_eq_some hu
  obtain ⟨hroom, hidentity, hasked, hplain⟩ := h.kept _ _ _ hfind
  refine ⟨h.settings ▸ he, hroom, Token.same_iff.2 hidentity, ?_, hplain⟩
  rw [hscope]
  exact hasked

/-- What the cache has is the answer, and what it does not have the sources say. -/
theorem Accounts.answered (hs : Sources.Steady c₀.sources) (h : Accounts c₀ asked c) (q : Question) :
    (∀ e, found? q c = some e → answer q c = .ok e.parents) ∧
      (found? q c = none → answer q c = plain q.branch q.token c₀) := by
  unfold answer
  obtain ⟨a, c', hr, ⟨e, hfound, ha⟩ | ⟨hfound, hplain⟩, -⟩ | ⟨x, c', hr, ⟨hfound, hplain⟩, -⟩ := (h.parents hs q).outcome rfl
  · rw [hr, hfound, ha]
    refine ⟨fun e' he' => ?_, fun hnone => ?_⟩
    · rw [Option.some.inj he']
    · cases hnone
  · rw [hr, hfound, hplain]
    exact ⟨fun _ he => (nomatch he), fun _ => rfl⟩
  · rw [hr, hfound, hplain]
    exact ⟨fun _ he => (nomatch he), fun _ => rfl⟩

/-- An answer that the sources gave is kept. -/
theorem cache_of_parents (hfound : (c.cache.lookup b scope t).1 = none) (hr : parents scope b t c = (.ok a, c')) :
    c'.cache = ((c.cache.lookup b scope t).2.add b scope t a).1 := by
  obtain ⟨found, c₁, hlookup, hr⟩ := Act.exists_of_bind_eq_ok hr
  obtain ⟨hfound₁, hcache₁, -⟩ := (lookup_effect b scope t c).of_ok rfl hlookup
  rw [hfound] at hfound₁
  subst hfound₁
  obtain ⟨a₁, c₂, hask, hr⟩ := Act.exists_of_bind_eq_ok hr
  have hcache₂ := (keeps_askBranch c₁ b t c₁ ⟨Sources.Leads.refl _, rfl⟩).cache
  rw [hask] at hcache₂
  obtain ⟨_, c₃, hkeep, hr⟩ := Act.exists_of_bind_eq_ok hr
  obtain ⟨hcache₃, -⟩ := (keep_effect b scope t a₁ c₂).of_ok rfl hkeep
  cases hr
  rw [hcache₃, hcache₂, hcache₁]

/-- After the first question of a user, the answer is there for every token of the same identity. -/
theorem found_after_asked (hs : Sources.Steady c₀.sources) (he : c₀.cache.settings.enabled = true)
    (hroom : 0 < c₀.cache.settings.maxSize) (user : String) (hsame : t.same t' = true) (hplain : plain b t c₀ = .ok a) :
    found? ⟨some user, b, t'⟩ ((flush c₀).2.afterAsked [⟨some user, b, t⟩]) = some ⟨t, a⟩ := by
  have hfresh : ((flush c₀).2.cache.lookup b (some user) t).1 = none := by
    rw [Cache.lookup_fst]
    cases b <;> exact ite_self _
  have hanswer := ((accounts_flush c₀).answered hs ⟨some user, b, t⟩).2 hfresh
  rcases hr : parents (some user) b t (flush c₀).2 with ⟨result, c⟩
  have hresult : result = .ok a := by rw [← hplain, ← hanswer, answer, hr]
  rw [hresult] at hr
  have hafter : (flush c₀).2.afterAsked [⟨some user, b, t⟩] = c := congrArg Prod.snd hr
  rw [hafter, found?, cache_of_parents hfresh hr]
  exact Cache.lookup_of_cleared c₀.cache he hroom b user a hsame

end Asking

/-! ## Catalogs -/

section Catalogs

variable {c₀ : Context Catalog} {t t' : Token}

/-- The native source of a catalog does not look at the kind. -/
theorem plain_native_of_same (h : t.same t' = true) : plain .native t c₀ = plain .native t' c₀ := by
  have hidentity := Token.same_iff.1 h
  have hreply : c₀.sources.native.reply t = c₀.sources.native.reply t' := by
    unfold Source.reply
    rw [hidentity]
    cases c₀.sources.native.rule <;> simp only [Source.Rule.answer, Listing.answer, hidentity]
  show (ask .native t c₀).1 = (ask .native t' c₀).1
  rw [ask_fst, ask_fst, Token.display, Token.display, hidentity]
  exact congrArg (Except.mapError _) hreply

/-- Which answer a question gets, of a context on any catalog, after any questions since the cache was emptied. If the cache has an entry
for it, the answer is what the sources say about the token of that entry, which has the same identity and was asked about before by the
same user on the same branch; if it has none, the answer is what the sources say about the token itself, which for native parents is
so in any case. All answers are about the tokens themselves exactly if the cache keeps nothing or the merged sources never say
something about a token that they do not say about another token of its identity. -/
theorem kept_answers (c₀ : Context Catalog) :
    (∀ asked q, let c := (flush c₀).2.afterAsked asked
      (∀ e, found? q c = some e → answer q c = plain q.branch e.token c₀ ∧ answer q c = .ok e.parents ∧
        e.token.same q.token = true ∧ ⟨q.scope, q.branch, e.token⟩ ∈ asked) ∧
      (found? q c = none → answer q c = plain q.branch q.token c₀) ∧
      (q.branch = .native → answer q c = plain .native q.token c₀)) ∧
    ((∀ asked q, answer q ((flush c₀).2.afterAsked asked) = plain q.branch q.token c₀) ↔
      c₀.cache.settings.enabled = false ∨ c₀.cache.settings.maxSize = 0 ∨
        ∀ t t' a, t.same t' = true → plain .hooked t c₀ = .ok a → plain .hooked t' c₀ = .ok a) := by
  have hs := Catalog.steady c₀.sources
  refine ⟨fun asked q => ?_, fun h => ?_, fun h asked q => ?_⟩
  · have haccounts := accounts_afterAsked hs asked
    obtain ⟨hhit, hmiss⟩ := haccounts.answered hs q
    refine ⟨fun e he => ?_, hmiss, fun hnative => ?_⟩
    · obtain ⟨-, -, hsame, hasked, hplain⟩ := haccounts.of_found he
      exact ⟨(hhit e he).trans hplain.symm, hhit e he, hsame, hasked⟩
    · cases hf : found? q ((flush c₀).2.afterAsked asked) with
      | none => rw [hmiss hf, hnative]
      | some e =>
        obtain ⟨-, -, hsame, -, hplain⟩ := haccounts.of_found hf
        rw [hhit e hf, ← hplain, hnative, plain_native_of_same hsame]
  · -- the same user asks about both tokens
    cases he : c₀.cache.settings.enabled with
    | false => exact Or.inl rfl
    | true =>
      refine Or.inr (Nat.eq_zero_or_pos _ |>.imp_right fun hroom t t' a hsame hplain => ?_)
      have hfound := found_after_asked hs he hroom "" hsame hplain
      rw [← h [⟨some "", .hooked, t⟩] ⟨some "", .hooked, t'⟩]
      exact ((accounts_afterAsked hs _).answered hs _).1 _ hfound
  · have haccounts := accounts_afterAsked hs asked
    obtain ⟨hhit, hmiss⟩ := haccounts.answered hs q
    cases hf : found? q ((flush c₀).2.afterAsked asked) with
    | none => exact hmiss hf
    | some e =>
      obtain ⟨he, hroom, hsame, -, hplain⟩ := haccounts.of_found hf
      rw [hhit e hf]
      rcases h with h | h | h
      · rw [h] at he
        cases he
      · omega
      · obtain ⟨scope, b, t⟩ := q
        cases b with
        | native => rw [← hplain, plain_native_of_same hsame]
        | hooked => exact (h _ _ _ hsame hplain).symm

/-- A catalog with a provider for the tokens of one custom kind, and for no others. -/
def oneKind : Catalog where
  native := Source.empty
  named := Table.empty.set "p" (Source.ofListing (Listing.empty.add (.element "t" "s" "a") (.element "t" "s" "p")))
  registry := ⟨Table.empty.set (.custom "k") ["p"]⟩
  hooks := Hooks.empty
  overlay := none
  queries := #[]

/-- An element and a token of the custom kind name the same object. Whoever asks about the second one first is told the same about the
element. -/
theorem kept_answers_one_kind :
    let c₀ := Context.new oneKind {}
    let first : Question := ⟨some "u", .hooked, .custom "k" "t" "s" "a"⟩
    let second : Question := ⟨some "u", .hooked, .element "t" "s" "a"⟩
    let c := (flush c₀).2.afterAsked [first]
    found? second c = some ⟨first.token, some [.element "t" "s" "p"]⟩ ∧ answer second c = plain .hooked first.token c₀ := by
  intro c₀ first second c
  have hfound : found? second c = some ⟨first.token, some [.element "t" "s" "p"]⟩ := by decide
  exact ⟨hfound, (((kept_answers c₀).1 [first] second).1 _ hfound).1⟩

/-- The sources themselves have no opinion on the element: what it is told is not about it. -/
theorem not_about_token_asked :
    let c₀ := Context.new oneKind {}
    let first : Question := ⟨some "u", .hooked, .custom "k" "t" "s" "a"⟩
    let second : Question := ⟨some "u", .hooked, .element "t" "s" "a"⟩
    answer second ((flush c₀).2.afterAsked [first]) = .ok (some [.element "t" "s" "p"]) ∧
      plain .hooked second.token c₀ = .ok none :=
  ⟨rfl, rfl⟩

end Catalogs

end Context
end Lineage
