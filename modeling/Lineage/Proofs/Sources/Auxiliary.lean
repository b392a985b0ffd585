import Lineage.Context
import Lineage.Source.Catalog
import Mathlib.Data.List.Induction
import Mathlib.Data.List.Nodup

/-!
# What the registry of auxiliary providers remembers, and who is asked

Providers are registered for kinds and taken away again and again. Who is registered for a kind can be told from the calls alone, and so
can the order: it is that of the last registration that was not refused. Who wants the merged parents of a token asks these providers in
this order, and then the hooking source; the first that fails ends it, and otherwise the answers are put together.
-/

namespace Lineage

namespace Auxiliary

/-! ## One operation -/

theorem providersFor_set (a : Auxiliary) (k j : Kind) (names : List String) :
    providersFor ⟨a.providers.set k names⟩ j = if j = k then names else a.providersFor j := by
  rw [providersFor, Table.find?_set]
  split <;> rfl

/-- A provider is refused exactly if it is registered already, and otherwise it comes last. -/
theorem register_eq (a : Auxiliary) (k : Kind) (name : String) :
    a.register k name =
      if name ∈ a.providersFor k then .error (.duplicateProvider k.tag)
      else .ok ⟨a.providers.set k (a.providersFor k ++ [name])⟩ := rfl

/-- A provider that is taken away is not registered any more, and all others are. -/
theorem providersFor_unregister (a : Auxiliary) (k j : Kind) (name : String) :
    (a.unregister k name).2.providersFor j = if j = k then (a.providersFor k).filter (· ≠ name) else a.providersFor j := by
  rw [unregister]
  cases hk : a.providers.find? k with
  | none =>
    by_cases hj : j = k
    · rw [if_pos hj, hj, show a.providersFor k = [] by rw [providersFor, hk]; rfl]
      rfl
    · rw [if_neg hj]
  | some names =>
    rw [providersFor_set, show a.providersFor k = names by rw [providersFor, hk]; rfl]

/-- Whether a provider was taken away. -/
theorem unregister_fst_iff (a : Auxiliary) (k : Kind) (name : String) :
    (a.unregister k name).1 = true ↔ name ∈ a.providersFor k := by
  rw [unregister, providersFor]
  cases a.providers.find? k with
  | none => simp
  | some names =>
    rw [Option.getD_some, decide_eq_true_eq, ne_eq, List.length_filter_eq_length_iff]
    simp

/-- To take a provider away that is not registered changes nothing. -/
theorem unregister_snd_of_not_mem {a : Auxiliary} {k : Kind} {name : String} (h : name ∉ a.providersFor k) :
    (a.unregister k name).2 = a := by
  rw [unregister]
  cases hk : a.providers.find? k with
  | none => rfl
  | some names =>
    rw [providersFor, hk, Option.getD_some] at h
    have hkept : names.filter (· ≠ name) = names :=
      List.filter_eq_self.2 fun x hx => decide_eq_true fun hname => h (hname ▸ hx)
    simp only [hkept, Table.set_of_find?_eq_some hk]

/-! ## Calls -/

/-- What can be done to the registry. -/
inductive Call where
  | register (k : Kind) (name : String)
  | unregister (k : Kind) (name : String)
  | clear
  deriving DecidableEq, Repr

namespace Call

/-- A call, carried out. A registration that is refused leaves the registry as it is. -/
def run : Call → Auxiliary → Auxiliary
  | .register k name, a => match a.register k name with
    | .ok a' => a'
    | .error _ => a
  | .unregister k name, a => (a.unregister k name).2
  | .clear, _ => Auxiliary.empty

/-- Whether a call is refused, or finds nothing to take away. -/
def fails : Call → Auxiliary → Bool
  | .register k name, a => match a.register k name with
    | .ok _ => false
    | .error _ => true
  | .unregister k name, a => !(a.unregister k name).1
  | .clear, _ => false

/-- Whether a call is about a kind. -/
def isFor (k : Kind) : Call → Bool
  | .register j _ | .unregister j _ => j = k
  | .clear => true

/-- Whether a call takes a provider of a kind away. -/
def ends (k : Kind) (name : String) : Call → Bool
  | .register .. => false
  | .unregister j other => j = k && other = name
  | .clear => true

variable {k : Kind} {name : String} {a : Auxiliary}

theorem run_register_of_mem (h : name ∈ a.providersFor k) : (register k name).run a = a := by
  simp only [run, register_eq, if_pos h]

theorem run_register_of_not_mem (h : name ∉ a.providersFor k) :
    (register k name).run a = ⟨a.providers.set k (a.providersFor k ++ [name])⟩ := by
  simp only [run, register_eq, if_neg h]

/-- A call that fails changes nothing. -/
theorem run_of_fails {call : Call} (h : call.fails a = true) : call.run a = a := by
  cases call with
  | register k name =>
    by_cases hname : name ∈ a.providersFor k
    · exact run_register_of_mem hname
    · simp only [fails, register_eq, if_neg hname, Bool.false_eq_true] at h
  | unregister k name =>
    refine unregister_snd_of_not_mem fun hname => ?_
    rw [fails, (unregister_fst_iff a k name).2 hname] at h
    cases h
  | clear => cases h

/-- A call leaves the providers of the kinds that it is not about. -/
theorem providersFor_run_of_isFor_eq_false {call : Call} (h : call.isFor k = false) :
    (call.run a).providersFor k = a.providersFor k := by
  cases call with
  | register j name =>
    have hj : k ≠ j := fun he => of_decide_eq_false h he.symm
    by_cases hname : name ∈ a.providersFor j
    · rw [run_register_of_mem hname]
    · rw [run_register_of_not_mem hname, providersFor_set, if_neg hj]
  | unregister j name =>
    have hj : k ≠ j := fun he => of_decide_eq_false h he.symm
    rw [run, providersFor_unregister, if_neg hj]
  | clear => cases h

end Call

/-- The registry after some calls. -/
def after (calls : List Call) : Auxiliary := calls.foldl (fun a call => call.run a) empty

theorem after_append (calls : List Call) (call : Call) : after (calls ++ [call]) = call.run (after calls) := by
  rw [after, List.foldl_append, ← after, List.foldl_cons, List.foldl_nil]

/-! ## What the calls tell -/

/-- A provider was registered for a kind, and not taken away since. -/
def Standing (k : Kind) (name : String) (calls : List Call) : Prop :=
  ∃ earlier later, calls = earlier ++ .register k name :: later ∧ ∀ call ∈ later, call.ends k name = false

/-- The call with a number registers a provider for a kind where it does not stand. -/
def TakenAt (k : Kind) (name : String) (calls : List Call) (n : Nat) : Prop :=
  ∃ earlier later, calls = earlier ++ .register k name :: later ∧ earlier.length = n ∧ ¬ Standing k name earlier

/-- The last call that registers a provider for a kind where it does not stand. -/
def LastTakenAt (k : Kind) (name : String) (calls : List Call) (n : Nat) : Prop :=
  TakenAt k name calls n ∧ ∀ m, TakenAt k name calls m → m ≤ n

/-- The one provider was registered last before the other was. -/
def Before (k : Kind) (calls : List Call) (x y : String) : Prop :=
  ∃ m n, LastTakenAt k x calls m ∧ LastTakenAt k y calls n ∧ m < n

section

variable {k : Kind} {name x y : String} {calls : List Call} {call : Call} {n : Nat}

theorem not_standing_nil : ¬ Standing k name [] := by
  rintro ⟨earlier, later, h, -⟩
  simp at h

/-- A list with one more element, cut at an element: that is the last one, or one before it. -/
theorem append_singleton_eq_append_cons {α : Type} {xs ys zs : List α} {a b : α} (h : xs ++ [a] = ys ++ b :: zs) :
    (zs = [] ∧ ys = xs ∧ b = a) ∨ ∃ zs', zs = zs' ++ [a] ∧ xs = ys ++ b :: zs' := by
  cases zs using List.reverseRecOn with
  | nil =>
    obtain ⟨rfl, hb⟩ := List.append_inj' h rfl
    exact Or.inl ⟨rfl, rfl, (List.cons.inj hb).1.symm⟩
  | append_singleton zs' c =>
    rw [← List.cons_append, ← List.append_assoc] at h
    obtain ⟨hxs, hc⟩ := List.append_inj' h rfl
    exact Or.inr ⟨zs', by rw [(List.cons.inj hc).1], hxs⟩

/-- With one more call a provider stands if that call registers it, or if it stood and the call does not take it away. -/
theorem standing_append :
    Standing k name (calls ++ [call]) ↔ call = .register k name ∨ (Standing k name calls ∧ call.ends k name = false) := by
  constructor
  · rintro ⟨earlier, later, h, hlater⟩
    obtain ⟨-, -, hcall⟩ | ⟨later', rfl, rfl⟩ := append_singleton_eq_append_cons h
    · exact Or.inl hcall.symm
    · exact Or.inr ⟨⟨earlier, later', rfl, fun c hc => hlater c (List.mem_append_left _ hc)⟩, hlater call (by simp)⟩
  · rintro (rfl | ⟨⟨earlier, later, rfl, hlater⟩, hcall⟩)
    · exact ⟨calls, [], rfl, by simp⟩
    · refine ⟨earlier, later ++ [call], by simp, fun c hc => ?_⟩
      obtain hc | hc := List.mem_append.1 hc
      · exact hlater c hc
      · exact List.mem_singleton.1 hc ▸ hcall

/-- One more call is one more registration if the provider does not stand before it. -/
theorem takenAt_append :
    TakenAt k name (calls ++ [call]) n ↔
      TakenAt k name calls n ∨ (n = calls.length ∧ call = .register k name ∧ ¬ Standing k name calls) := by
  constructor
  · rintro ⟨earlier, later, h, rfl, hnot⟩
    obtain ⟨-, rfl, hcall⟩ | ⟨later', -, rfl⟩ := append_singleton_eq_append_cons h
    · exact Or.inr ⟨rfl, hcall.symm, hnot⟩
    · exact Or.inl ⟨earlier, later', rfl, rfl, hnot⟩
  · rintro (⟨earlier, later, rfl, hn, hnot⟩ | ⟨rfl, rfl, hnot⟩)
    · exact ⟨earlier, later ++ [call], by simp, hn, hnot⟩
    · exact ⟨calls, [], rfl, rfl, hnot⟩

theorem TakenAt.lt_length (h : TakenAt k name calls n) : n < calls.length := by
  obtain ⟨earlier, later, rfl, rfl, -⟩ := h
  simp

/-- The last registration is the new call, where it is one. -/
theorem lastTakenAt_append_self (h : ¬ Standing k name calls) :
    LastTakenAt k name (calls ++ [.register k name]) calls.length := by
  refine ⟨takenAt_append.2 (Or.inr ⟨rfl, rfl, h⟩), fun m hm => ?_⟩
  have := hm.lt_length
  rw [List.length_append, List.length_singleton] at this
  exact Nat.lt_succ_iff.1 this

/-- The last registration stays the last one under any other call. -/
theorem LastTakenAt.append (h : LastTakenAt k name calls n) (hcall : call = .register k name → Standing k name calls) :
    LastTakenAt k name (calls ++ [call]) n := by
  refine ⟨takenAt_append.2 (Or.inl h.1), fun m hm => ?_⟩
  obtain hm | ⟨-, hc, hnot⟩ := takenAt_append.1 hm
  · exact h.2 m hm
  · exact (hnot (hcall hc)).elim

theorem Before.append (h : Before k calls x y) (hx : Standing k x calls) (hy : Standing k y calls) :
    Before k (calls ++ [call]) x y := by
  obtain ⟨m, n, hm, hn, hlt⟩ := h
  exact ⟨m, n, hm.append fun _ => hx, hn.append fun _ => hy, hlt⟩

/-- A provider that stands was registered at last. -/
theorem exists_lastTakenAt (h : Standing k name calls) : ∃ n, LastTakenAt k name calls n := by
  induction calls using List.reverseRecOn with
  | nil => exact (not_standing_nil h).elim
  | append_singleton calls call ih =>
    by_cases hs : Standing k name calls
    · obtain ⟨n, hn⟩ := ih hs
      exact ⟨n, hn.append fun _ => hs⟩
    · obtain rfl | ⟨hs', -⟩ := standing_append.1 h
      · exact ⟨calls.length, lastTakenAt_append_self hs⟩
      · exact (hs hs').elim

/-! ## What the registry remembers -/

/-- A list of providers as the calls tell it: those that stand, each once, in the order of their last registrations. -/
structure Lists (k : Kind) (calls : List Call) (names : List String) : Prop where
  nodup : names.Nodup
  mem_iff : ∀ name, name ∈ names ↔ Standing k name calls
  ordered : names.Pairwise (Before k calls)

variable {names : List String}

/-- One more call does not change the order of those that stood before it. -/
theorem Lists.ordered_append (h : Lists k calls names) (call : Call) : names.Pairwise (Before k (calls ++ [call])) :=
  h.ordered.imp_of_mem fun hx hy hb => hb.append ((h.mem_iff _).1 hx) ((h.mem_iff _).1 hy)

/-- A call that neither registers nor takes away a provider of the kind changes nothing. -/
theorem Lists.append (h : Lists k calls names) (hcall : ∀ name, call = .register k name → name ∈ names)
    (hends : ∀ name ∈ names, call.ends k name = false) : Lists k (calls ++ [call]) names where
  nodup := h.nodup
  mem_iff name := by
    rw [standing_append, h.mem_iff]
    constructor
    · exact fun hs => Or.inr ⟨hs, hends name ((h.mem_iff name).2 hs)⟩
    · rintro (hc | hs)
      · exact (h.mem_iff name).1 (hcall name hc)
      · exact hs.1
  ordered := h.ordered_append call

/-- A provider that does not stand comes last when it is registered. -/
theorem Lists.register (h : Lists k calls names) (hname : name ∉ names) :
    Lists k (calls ++ [.register k name]) (names ++ [name]) where
  nodup := List.concat_eq_append ▸ h.nodup.concat hname
  mem_iff x := by
    rw [standing_append, List.mem_append, List.mem_singleton, h.mem_iff, Call.register.injEq]
    constructor
    · rintro (hs | rfl)
      · exact Or.inr ⟨hs, rfl⟩
      · exact Or.inl ⟨rfl, rfl⟩
    · rintro (⟨-, rfl⟩ | ⟨hs, -⟩)
      · exact Or.inr rfl
      · exact Or.inl hs
  ordered := by
    have hnot : ¬ Standing k name calls := fun hs => hname ((h.mem_iff name).2 hs)
    refine List.pairwise_append.2 ⟨h.ordered_append _, List.pairwise_singleton _ _, fun x hx y hy => ?_⟩
    have hs := (h.mem_iff x).1 hx
    obtain ⟨m, hm⟩ := exists_lastTakenAt hs
    rw [List.mem_singleton.1 hy]
    exact ⟨m, calls.length, hm.append fun _ => hs, lastTakenAt_append_self hnot, hm.1.lt_length⟩

/-- The others stay as they are when a provider is taken away. -/
theorem Lists.unregister (h : Lists k calls names) (name : String) :
    Lists k (calls ++ [.unregister k name]) (names.filter (· ≠ name)) where
  nodup := h.nodup.filter _
  mem_iff x := by
    rw [standing_append, List.mem_filter, h.mem_iff, decide_eq_true_eq]
    simp [Call.ends, eq_comm]
  ordered := (h.ordered_append _).filter _

theorem Lists.nil (h : ∀ name, ¬ Standing k name calls) : Lists k calls [] where
  nodup := List.nodup_nil
  mem_iff name := by simp [h name]
  ordered := List.Pairwise.nil

/-- What a call leaves is what the history with that call tells. -/
theorem Lists.run {a : Auxiliary} (h : ∀ k, Lists k calls (a.providersFor k)) (call : Call) (k : Kind) :
    Lists k (calls ++ [call]) ((call.run a).providersFor k) := by
  cases hfor : call.isFor k with
  | false =>
    rw [Call.providersFor_run_of_isFor_eq_false hfor]
    cases call with
    | register j name =>
      refine (h k).append (fun other he => ?_) fun _ _ => rfl
      cases he
      exact absurd rfl (of_decide_eq_false hfor)
    | unregister j name =>
      refine (h k).append nofun fun other _ => ?_
      rw [Call.ends, decide_eq_false (of_decide_eq_false hfor), Bool.false_and]
    | clear => cases hfor
  | true =>
    cases call with
    | register j name =>
      obtain rfl : j = k := of_decide_eq_true hfor
      by_cases hname : name ∈ a.providersFor j
      · rw [Call.run_register_of_mem hname]
        refine (h j).append (fun other he => ?_) fun _ _ => rfl
        cases he
        exact hname
      · rw [Call.run_register_of_not_mem hname, providersFor_set, if_pos rfl]
        exact (h j).register hname
    | unregister j name =>
      obtain rfl : j = k := of_decide_eq_true hfor
      rw [Call.run, providersFor_unregister, if_pos rfl]
      exact (h j).unregister name
    | clear => exact Lists.nil fun name hs => by simp [standing_append, Call.ends] at hs

/-- After any calls the registry has for every kind the providers that the calls tell. -/
theorem lists_after (calls : List Call) (k : Kind) : Lists k calls ((after calls).providersFor k) := by
  induction calls using List.reverseRecOn generalizing k with
  | nil => exact Lists.nil fun _ => not_standing_nil
  | append_singleton calls call ih =>
    rw [after_append]
    exact Lists.run ih call k

end
end Auxiliary

/-! ## Who is asked -/

/-- The category of those who are asked. -/
def Asked.category : Asked → Category
  | .native => .native
  | .auxiliary _ => .auxiliary
  | .hooking => .hooking

/-- Some answers as one, in order. -/
def Answer.mergeAll (answers : List Answer) : Answer := answers.foldr merge none

/-- Merging is without an opinion exactly if all answers are, and otherwise it has the parents of all of them, one answer after the
other. -/
theorem Answer.mergeAll_eq (answers : List Answer) :
    mergeAll answers = if ∀ a ∈ answers, a = none then none else some (answers.flatMap (·.getD [])) := by
  induction answers with
  | nil => rfl
  | cons a answers ih =>
    rw [mergeAll, List.foldr_cons, ← mergeAll, ih]
    cases a with
    | none => simp
    | some ts =>
      by_cases hall : ∀ a ∈ answers, a = none
      · have hflat : answers.flatMap (·.getD []) = [] := List.flatMap_eq_nil_iff.2 fun a ha => by rw [hall a ha]; rfl
        rw [if_pos hall]
        simp [hflat, merge]
      · rw [if_neg hall]
        simp [merge]

theorem Answer.mergeAll_append (answers others : List Answer) :
    mergeAll (answers ++ others) = merge (mergeAll answers) (mergeAll others) := by
  induction answers with
  | nil => rfl
  | cons a answers ih =>
    rw [List.cons_append, mergeAll, List.foldr_cons, ← mergeAll, ih, ← merge_assoc]
    rfl

section

variable {σ : Type}

/-- Some are asked about a token one after the other, and this is what they answered. -/
inductive Heard (ask : Asked → Token → σ → Reply × σ) (t : Token) : σ → List Asked → List Answer → σ → Prop where
  | nil (s : σ) : Heard ask t s [] [] s
  | cons {s s' s'' : σ} {who : Asked} {others : List Asked} {a : Answer} {answers : List Answer} :
      ask who t s = (.ok a, s') → Heard ask t s' others answers s'' → Heard ask t s (who :: others) (a :: answers) s''

variable {ask : Asked → Token → σ → Reply × σ} {t : Token} {s s' s'' : σ} {asked others : List Asked} {answers more : List Answer}

theorem Heard.append (h : Heard ask t s asked answers s') (h' : Heard ask t s' others more s'') :
    Heard ask t s (asked ++ others) (answers ++ more) s'' := by
  induction h with
  | nil => exact h'
  | cons ha _ ih => exact .cons ha (ih h')

/-- Somebody was asked after some others had answered, and failed. -/
def FailedAt (ask : Asked → Token → σ → Reply × σ) (t : Token) (s : σ) (asked : List Asked) (who : Asked) (text : String)
    (s' : σ) : Prop :=
  ∃ before others answers s₁, asked = before ++ who :: others ∧ Heard ask t s before answers s₁ ∧ ask who t s₁ = (.error text, s')

/-- Providers are asked in order up to the first that fails, and their answers are merged. -/
theorem Auxiliary.consult_outcome (ask : Asked → Token → σ → Reply × σ) (t : Token) (names : List String) (s : σ) :
    (∃ answers s', Heard ask t s (names.map .auxiliary) answers s' ∧
      consult (fun name => ask (.auxiliary name)) t names s = (.ok (Answer.mergeAll answers), s')) ∨
    ∃ name text s', FailedAt ask t s (names.map .auxiliary) (.auxiliary name) text s' ∧
      consult (fun name => ask (.auxiliary name)) t names s = (.error text, s') := by
  induction names generalizing s with
  | nil => exact Or.inl ⟨[], s, .nil s, rfl⟩
  | cons name names ih =>
    rcases ha : ask (.auxiliary name) t s with ⟨text | a, s₁⟩
    · refine Or.inr ⟨name, text, s₁, ⟨[], names.map .auxiliary, [], s, rfl, .nil s, ha⟩, ?_⟩
      simp only [consult, ha]
    · obtain ⟨answers, s', hheard, heq⟩ | ⟨other, text, s', ⟨before, others, answers, s₂, hasked, hheard, hfail⟩, heq⟩ := ih s₁
      · refine Or.inl ⟨a :: answers, s', .cons ha hheard, ?_⟩
        simp only [consult, ha, heq]
        rfl
      · refine Or.inr ⟨other, text, s', ⟨.auxiliary name :: before, others, a :: answers, s₂, ?_, .cons ha hheard, hfail⟩, ?_⟩
        · rw [List.map_cons, hasked, List.cons_append]
        · simp only [consult, ha, heq]

/-- Sources that consult the providers of a registry, one by one, for the auxiliary parents. Any of them may keep a state. -/
structure Registers (σ : Type) [Sources σ] where
  registry : σ → Auxiliary
  /-- the reply of one of those who are asked, and the state that it leaves -/
  ask : Asked → Token → σ → Reply × σ
  ask_auxiliary (t : Token) (s : σ) :
    Sources.ask .auxiliary t s = Auxiliary.consult (fun name => ask (.auxiliary name)) t ((registry s).providersFor t.kind) s
  ask_hooking (t : Token) (s : σ) : Sources.ask .hooking t s = ask .hooking t s

/-- A catalog consults the providers of its registry. -/
def Catalog.registers : Registers Catalog where
  registry := Catalog.registry
  ask
    | .native, t, c => (c.native.reply t, c.note .native t)
    | .auxiliary name, t, c => c.askNamed name t
    | .hooking, t, c => (c.hooked t, c.note .hooking t)
  ask_auxiliary _ _ := rfl
  ask_hooking _ _ := rfl

variable [Sources σ]

/-- The merged parents are asked of the providers for the kind of the token, in order, and then of the hooking source. -/
theorem Registers.askMerged_outcome (r : Registers σ) (t : Token) (c : Context σ) :
    let asked := ((r.registry c.sources).providersFor t.kind).map Asked.auxiliary ++ [.hooking]
    (∃ answers sources, Heard r.ask t c.sources asked answers sources ∧
      Context.askMerged t c = (.ok (Answer.mergeAll answers), { c with sources })) ∨
    ∃ who text sources, FailedAt r.ask t c.sources asked who text sources ∧
      Context.askMerged t c = (.error (.sourceFailed who.category t.display text), { c with sources }) := by
  intro asked
  obtain ⟨answers, s, hheard, heq⟩ | ⟨name, text, s, ⟨before, others, answers, s₁, hasked, hheard, hfail⟩, heq⟩ :=
    Auxiliary.consult_outcome r.ask t ((r.registry c.sources).providersFor t.kind) c.sources
  · have hfirst : Context.ask .auxiliary t c = (.ok (Answer.mergeAll answers), { c with sources := s }) := by
      simp only [Context.ask, r.ask_auxiliary, heq]
    rw [Context.askMerged, Act.bind_of_ok hfirst]
    rcases hlast : r.ask .hooking t s with ⟨text | a, s'⟩
    · refine Or.inr ⟨.hooking, text, s', ⟨_, [], answers, s, rfl, hheard, hlast⟩, Act.bind_of_error ?_⟩
      simp only [Context.ask, r.ask_hooking, hlast]
      rfl
    · refine Or.inl ⟨answers ++ [a], s', hheard.append (.cons hlast (.nil s')), ?_⟩
      have hsecond : Context.ask .hooking t { c with sources := s } = (.ok a, { c with sources := s' }) := by
        simp only [Context.ask, r.ask_hooking, hlast]
      rw [Act.bind_of_ok hsecond, Answer.mergeAll_append]
      simp only [Answer.mergeAll, List.foldr_cons, List.foldr_nil, Answer.merge_none]
      rfl
  · refine Or.inr ⟨.auxiliary name, text, s, ⟨before, others ++ [.hooking], answers, s₁, ?_, hheard, hfail⟩, ?_⟩
    · simp only [asked, hasked, List.append_assoc, List.cons_append]
    · rw [Context.askMerged, Act.bind_of_error]
      simp only [Context.ask, r.ask_auxiliary, heq]
      rfl

/-- What the registry remembers of any calls, and who is asked then. For every kind it has the providers that were registered for it
and not taken away since, each once and in the order of their last registrations that were not refused. A registration is refused
exactly if the provider is there, and a provider is taken away exactly if it is; a call that does neither changes nothing, and neither
does a call change anything for other kinds. The merged parents of a token are asked of the providers for its kind in their order and
then of the hooking source. The first that fails ends it, with its category. If nobody fails there is no opinion exactly if nobody has
one, and otherwise the parents are those of all answers in order. -/
theorem Registers.askMerged_after (r : Registers σ) (calls : List Auxiliary.Call) :
    let a := Auxiliary.after calls
    (∀ k, (a.providersFor k).Nodup ∧ (∀ name, name ∈ a.providersFor k ↔ Auxiliary.Standing k name calls) ∧
      (a.providersFor k).Pairwise (Auxiliary.Before k calls)) ∧
    (∀ k name, (∀ e, a.register k name = .error e ↔ name ∈ a.providersFor k ∧ e = .duplicateProvider k.tag) ∧
      ((a.unregister k name).1 = true ↔ name ∈ a.providersFor k)) ∧
    (∀ call : Auxiliary.Call, (call.fails a = true → call.run a = a) ∧
      ∀ k, call.isFor k = false → (call.run a).providersFor k = a.providersFor k) ∧
    ∀ t (c : Context σ), r.registry c.sources = a →
      let asked := (a.providersFor t.kind).map Asked.auxiliary ++ [.hooking]
      (∃ answers sources, Heard r.ask t c.sources asked answers sources ∧
        Context.askMerged t c =
          (.ok (if ∀ x ∈ answers, x = none then none else some (answers.flatMap (·.getD []))), { c with sources })) ∨
      ∃ who text sources, FailedAt r.ask t c.sources asked who text sources ∧
        Context.askMerged t c = (.error (.sourceFailed who.category t.display text), { c with sources }) := by
  intro a
  refine ⟨fun k => ?_, fun k name => ⟨fun e => ?_, a.unregister_fst_iff k name⟩, fun call => ?_, fun t c hc => ?_⟩
  · have h := Auxiliary.lists_after calls k
    exact ⟨h.nodup, h.mem_iff, h.ordered⟩
  · rw [Auxiliary.register_eq]
    split
    · next h => simp [h, eq_comm]
    · next h => simp [h]
  · exact ⟨Auxiliary.Call.run_of_fails, fun k => Auxiliary.Call.providersFor_run_of_isFor_eq_false⟩
  · rw [← hc]
    simp only [← Answer.mergeAll_eq]
    exact r.askMerged_outcome t c

/-- A provider that was taken away comes after the one that stayed when it is registered again. It has the only opinion: no
parents. -/
theorem Registers.askMerged_after_moved :
    let row := Token.element "row" "news" "1"
    let calls : List Auxiliary.Call :=
      [.register row.kind "first", .register row.kind "second", .unregister row.kind "first", .register row.kind "first"]
    let first := Source.ofListing ⟨Table.empty.set row.identity []⟩
    let c := Context.new { Catalog.empty with named := Table.empty.set "first" first, registry := Auxiliary.after calls } .disabled
    (Auxiliary.after calls).providersFor row.kind = ["second", "first"] ∧
    (Context.askMerged row c).1 = .ok (some []) ∧
    ∃ answers sources,
      Heard Catalog.registers.ask row c.sources [.auxiliary "second", .auxiliary "first", .hooking] answers sources ∧
      Context.askMerged row c =
        (.ok (if ∀ x ∈ answers, x = none then none else some (answers.flatMap (·.getD []))), { c with sources }) := by
  intro row calls first c
  refine ⟨by decide, rfl, ?_⟩
  obtain h | ⟨who, text, sources, -, h⟩ := (Catalog.registers.askMerged_after calls).2.2.2 row c rfl
  · exact h
  · cases congrArg Prod.fst h

end
end Lineage
