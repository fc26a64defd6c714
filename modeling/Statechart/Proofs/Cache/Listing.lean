import Statechart.Proofs.Cache.History
import Statechart.Proofs.Source.Calls

/-!
# Listings of a cache

A cache lists its analyses path by path, and those of one path in the order of the text. Main
statement: after any history the listing is in this order, and it depends on nothing but the texts
that are kept in the end, if every path is always written in one spelling; otherwise each path is
listed in the spelling under which it came in.
-/

namespace Statechart

/-! ## 1. Analyses in the order of the text -/

namespace Source.Tree

variable {t : Tree} {settings : Settings}

/-- The calls that are told of a file are all that make machines, in the order of the text. -/
theorem inOrder_of_machineCalls {calls : List MachineCall}
    (h : t.machineCalls settings = .ok calls) :
    InOrder (· < ·) (t.MadeAt (t.scope.ImportsFactory settings)) calls := by
  have hscope : Assoc.Distinct t.scope := Assoc.distinct_ofList _
  have hnames : t.scope.ImportsFactory settings = (· ∈ factories t.scope settings) :=
    funext fun name => propext (mem_factories_iff hscope).symm
  rw [hnames]
  unfold machineCalls at h
  split at h
  · cases h
  · split at h
    · next hnone =>
      -- without factories there is no call of one
      obtain rfl := Except.ok.inj h
      refine .nil fun a call hmade => ?_
      obtain ⟨parts, _, ⟨hname, -⟩, -⟩ := hmade
      rw [hnone] at hname
      cases hname
    · exact inOrder_of_callsIn h

/-- **The machine of the call at an address is analysed so.** -/
def AnalysedAt (t : Tree) (settings : Settings) (a : List Nat) (x : Analysis) : Prop :=
  ∃ call, t.MadeAt (t.scope.ImportsFactory settings) a call ∧
    call.machine ⟨t.scope, settings⟩ = .ok x.machine ∧ Analysis.ofMachine x.machine = .ok x

end Source.Tree

theorem Analysis.machine_of_ofMachine {m : DefinedMachine} {x : Analysis}
    (h : ofMachine m = .ok x) : x.machine = m := by
  unfold ofMachine at h
  split at h
  · obtain rfl := Except.ok.inj h
    rfl
  · cases h

/-- **The analyses of a text come in the order of the text**, one for each call that makes a
machine. -/
theorem Analysis.inOrder_of_ofText {dialect : Source.Dialect} {settings : Settings} {text : String}
    {xs : List Analysis} (h : ofText dialect settings text = .ok xs) :
    InOrder (· < ·) ((Source.Tree.ofText dialect text).AnalysedAt settings) xs := by
  obtain ⟨machines, hmachines, hxs⟩ := Outcome.bind_eq_ok.1 h
  obtain ⟨calls, hcalls, hmachines⟩ := Outcome.bind_eq_ok.1 (Outcome.mapError_eq_ok.1 hmachines)
  have horder := Source.Tree.inOrder_of_machineCalls (Outcome.mapError_eq_ok.1 hcalls)
  rw [← Outcome.filterMap_of_mapM_eq_ok hxs, ← Outcome.filterMap_of_mapM_eq_ok hmachines]
  refine ((horder.filterMap _).filterMap _).congr fun a x => ?_
  constructor
  · intro h
    obtain ⟨call, hmade, hmachine, hx⟩ := h
    exact ⟨x.machine, ⟨call, hmade, Outcome.toOption_eq_some_iff.2 hmachine⟩,
      Outcome.toOption_eq_some_iff.2 hx⟩
  · intro h
    obtain ⟨m, ⟨call, hmade, hmachine⟩, hx⟩ := h
    have hx := Outcome.toOption_eq_some_iff.1 hx
    obtain rfl := machine_of_ofMachine hx
    exact ⟨call, hmade, Outcome.toOption_eq_some_iff.1 hmachine, hx⟩

namespace Cache

variable {c : Cache} {settings : Settings} {path q : FilePath}

/-! ## 2. The listing -/

/-- The analysis stands at the address in the text that is kept under the path. -/
def ListedAt (c : Cache) (settings : Settings) (address : FilePath × List Nat)
    (item : FilePath × Analysis) : Prop :=
  ∃ e ∈ c.entries, e.path = address.1 ∧ item.1 = e.path ∧
    (Source.Tree.ofText e.path.dialect e.text).AnalysedAt settings address.2 item.2

/-- Entries in ascending order stand in the order of their paths. -/
theorem Ascending.inOrder {entries : List CacheEntry} (h : Ascending entries) :
    InOrder FilePath.Before (fun p e => e ∈ entries ∧ e.path = p) entries := by
  refine ⟨entries.map fun e => (e.path, e), ?_, ?_, fun p e => ?_⟩
  · rw [List.map_map]
    exact List.map_id' entries
  · exact List.pairwise_map.2 (List.Pairwise.imp FilePath.compare_eq_lt_iff.1 h)
  · rw [List.mem_map]
    constructor
    · intro he
      obtain ⟨he, rfl⟩ := he
      exact ⟨e, he, rfl⟩
    · intro he
      obtain ⟨f, hf, hfe⟩ := he
      obtain ⟨rfl, rfl⟩ := Prod.mk.inj hfe
      exact ⟨hf, rfl⟩

/-- **The listing goes by path, and then by place in the text.** -/
theorem Faithful.inOrder_machines (h : Faithful settings c) :
    InOrder (Prod.Lex FilePath.Before (· < ·)) (c.ListedAt settings) c.machines := by
  refine (h.ascending.inOrder.bind fun e he =>
    (Analysis.inOrder_of_ofText (h.analysed e he)).map (e.path, ·)).congr fun a item => ?_
  constructor
  · intro hlisted
    obtain ⟨e, he, hpath, hitem, hanalysed⟩ := hlisted
    exact ⟨e, ⟨he, hpath⟩, item.2, hanalysed, by rw [← hitem]⟩
  · intro hlisted
    obtain ⟨e, ⟨he, hpath⟩, x, hanalysed, rfl⟩ := hlisted
    exact ⟨e, he, hpath, rfl, hanalysed⟩

/-! ## 3. Spellings -/

/-- The spelling under which a path is kept. -/
def spelling? (c : Cache) (path : FilePath) : Option FilePath :=
  (c.entry? path).map CacheEntry.path

/-- The text that is kept under a path. -/
def text? (c : Cache) (path : FilePath) : Option String := (c.entry? path).map CacheEntry.text

/-- A placed entry has the spelling that is there, or else its own. -/
theorem Ascending.find?_place {entries : List CacheEntry} (h : Ascending entries)
    (e : CacheEntry) :
    ((Cache.place e entries).find? fun f => f.path.same e.path).map CacheEntry.path =
      some (((entries.find? fun f => f.path.same e.path).map CacheEntry.path).getD e.path) := by
  induction entries with
  | nil => simp [Cache.place, FilePath.same_self]
  | cons f rest ih =>
    obtain ⟨hf, hrest⟩ := List.pairwise_cons.1 h
    rw [Cache.place]
    split
    · next hlt =>
      -- all that is there comes later
      have hnone : (f :: rest).find? (fun g => g.path.same e.path) = none := by
        refine List.find?_eq_none.2 fun g hg => ?_
        have hless : e.path.compare g.path = .lt := by
          rcases List.mem_cons.1 hg with rfl | hg
          · exact hlt
          · exact FilePath.compare_lt_trans hlt (hf g hg)
        rw [FilePath.same_comm, FilePath.not_same_of_compare (by simp [hless])]
        exact Bool.false_ne_true
      rw [hnone]
      simp [FilePath.same_self]
    · next heq =>
      have hsame : f.path.same e.path = true := by
        rw [FilePath.same_comm]
        exact FilePath.compare_eq_eq_iff.1 heq
      simp [hsame]
    · next hgt =>
      have hother : f.path.same e.path = false := by
        rw [FilePath.same_comm]
        exact FilePath.not_same_of_compare (by simp [hgt])
      rw [List.find?_cons, List.find?_cons, hother]
      exact ih hrest

/-- **A path that is there keeps its spelling**, and a new one has the one it is put under. -/
theorem Faithful.spelling?_insert (h : Faithful settings c) {text : String} {xs : List Analysis}
    (hok : (c.insert path text).1 = .ok xs) :
    (c.insert path text).2.spelling? path = some ((c.spelling? path).getD path) := by
  unfold Cache.insert at hok ⊢
  split
  · next e he =>
    obtain ⟨hentry, -⟩ := Option.filter_eq_some_iff.1 he
    simp [spelling?, hentry]
  · next hnone =>
    rw [hnone] at hok
    split
    · next analyses _ => exact h.ascending.find?_place ⟨path, text, analyses⟩
    · next error herror =>
      simp only [herror] at hok
      cases hok

theorem Faithful.spelling?_refresh (h : Faithful settings c) {files : Files} {xs : List Analysis}
    (hok : (c.refresh files path).1 = .ok xs) :
    (c.refresh files path).2.spelling? path = some ((c.spelling? path).getD path) := by
  cases hread : files.read path with
  | ok text =>
    rw [Faithful.refresh_of_read hread] at hok ⊢
    exact h.spelling?_insert hok
  | error error =>
    rw [Faithful.refresh_of_read_error hread] at hok
    cases hok

/-- The entry of a path is its own. -/
theorem Ascending.entry?_of_mem (h : Ascending c.entries) {e : CacheEntry} (he : e ∈ c.entries) :
    c.entry? e.path = some e := by
  obtain ⟨before, after, hsplit⟩ := List.append_of_mem he
  unfold entry?
  refine List.find?_eq_some_iff_append.2 ⟨FilePath.same_self _, before, after, hsplit, ?_⟩
  intro f hf
  have hpairs := h.not_same
  rw [hsplit] at hpairs
  rw [(List.pairwise_append.1 hpairs).2.2 f hf e List.mem_cons_self]
  rfl

/-- What a cache keeps is kept by another one with the same text under the path, in the same
spelling. -/
theorem Faithful.mem_of_text? {c' : Cache} (h : Faithful settings c) (h' : Faithful settings c')
    {e : CacheEntry} (he : e ∈ c.entries) (htext : c.text? e.path = c'.text? e.path)
    (hspelling : ∀ f ∈ c'.entries, f.path.same e.path = true → f.path = e.path) :
    e ∈ c'.entries := by
  unfold text? at htext
  rw [h.ascending.entry?_of_mem he] at htext
  obtain ⟨f, hf, hft⟩ := Option.map_eq_some_iff.1 htext.symm
  obtain ⟨hmem, hsame⟩ := mem_of_entry? hf
  have hpath := hspelling f hmem hsame
  have hanalyses : f.analyses = e.analyses := by
    have hok := h'.analysed f hmem
    rw [hpath, hft, h.analysed e he] at hok
    exact (Except.ok.inj hok).symm
  have heq : f = e := by
    cases f
    cases e
    simp_all
  exact heq ▸ hmem

/-! ## 4. Histories -/

/-- The path at which an operation may put something, as it is spelled there. -/
def Operation.written? : Operation → Option FilePath
  | insert path _ => some path
  | refresh path => some path
  | _ => none

/-- Every path at which something is put is always spelled alike. -/
def SpelledAlike (ops : List Operation) : Prop :=
  ∀ p ∈ ops.filterMap Operation.written?, ∀ q ∈ ops.filterMap Operation.written?,
    p.same q = true → p = q

instance (ops : List Operation) : Decidable (SpelledAlike ops) :=
  inferInstanceAs (Decidable (∀ p ∈ ops.filterMap Operation.written?,
    ∀ q ∈ ops.filterMap Operation.written?, p.same q = true → p = q))

theorem path_of_mem_place {e f : CacheEntry} {entries : List CacheEntry}
    (hf : f ∈ place e entries) : f.path = e.path ∨ ∃ g ∈ entries, g.path = f.path := by
  induction entries with
  | nil =>
    obtain rfl := List.mem_singleton.1 hf
    exact .inl rfl
  | cons g rest ih =>
    rw [place] at hf
    split at hf
    · rcases List.mem_cons.1 hf with rfl | hf
      · exact .inl rfl
      · exact .inr ⟨f, hf, rfl⟩
    · rcases List.mem_cons.1 hf with rfl | hf
      · exact .inr ⟨g, List.mem_cons_self, rfl⟩
      · exact .inr ⟨f, List.mem_cons_of_mem g hf, rfl⟩
    · rcases List.mem_cons.1 hf with rfl | hf
      · exact .inr ⟨f, List.mem_cons_self, rfl⟩
      · refine (ih hf).imp_right fun hg => ?_
        obtain ⟨g', hg', hpath⟩ := hg
        exact ⟨g', List.mem_cons_of_mem g hg', hpath⟩

theorem path_of_mem_insert {text : String} {e : CacheEntry}
    (he : e ∈ (c.insert path text).2.entries) :
    e.path = path ∨ ∃ f ∈ c.entries, f.path = e.path := by
  unfold insert at he
  split at he
  · exact .inr ⟨e, he, rfl⟩
  · split at he
    · exact path_of_mem_place he
    · exact .inr ⟨e, (List.mem_filter.1 he).1, rfl⟩

namespace Session

variable {s : Session} {op : Operation}

/-- **An operation puts nothing under another spelling than its own.** -/
theorem path_of_mem_step {e : CacheEntry} (he : e ∈ (s.step op).cache.entries) :
    op.written? = some e.path ∨ ∃ f ∈ s.cache.entries, f.path = e.path := by
  cases op with
  | insert path text => exact (path_of_mem_insert he).imp_left fun hpath => congrArg some hpath.symm
  | refresh path =>
    cases hread : s.files.read path with
    | ok text =>
      have he : e ∈ (s.cache.refresh s.files path).2.entries := he
      rw [Faithful.refresh_of_read hread] at he
      exact (path_of_mem_insert he).imp_left fun hpath => congrArg some hpath.symm
    | error error =>
      have he : e ∈ (s.cache.refresh s.files path).2.entries := he
      rw [Faithful.refresh_of_read_error hread] at he
      exact .inr ⟨e, (List.mem_filter.1 he).1, rfl⟩
  | invalidate path => exact .inr ⟨e, (List.mem_filter.1 he).1, rfl⟩
  | clear => cases he
  | change files => exact .inr ⟨e, he, rfl⟩

theorem path_of_mem_run {files : Files} {ops : List Operation} {e : CacheEntry}
    (he : e ∈ ((start settings files).run ops).cache.entries) :
    e.path ∈ ops.filterMap Operation.written? := by
  induction ops using List.reverseRecOn generalizing e with
  | nil => cases he
  | append_singleton ops op ih =>
    rw [run_concat] at he
    rw [List.filterMap_append, List.mem_append]
    rcases path_of_mem_step he with hwritten | ⟨f, hf, hpath⟩
    · exact .inr (by simp [hwritten])
    · exact .inl (hpath ▸ ih hf)

/-- **What an operation leaves under a path stands in the spelling that was there**, or else in that
of the operation. -/
theorem spelling?_step_of_leaves (hs : s.cache.Faithful settings) (hwritten : op.written? = some q)
    (hsame : q.same path = true) {xs : List Analysis}
    (hleaves : op.leaves settings s.files = some xs) :
    (s.step op).cache.spelling? path = some ((s.cache.spelling? path).getD q) := by
  unfold spelling?
  rw [← entry?_congr hsame, ← entry?_congr hsame]
  cases op with
  | insert q' text =>
    obtain rfl := Option.some.inj hwritten
    have hok : (s.cache.insert q' text).1 = .ok xs := by
      rw [hs.answer_insert]
      exact Outcome.toOption_eq_some_iff.1 hleaves
    exact hs.spelling?_insert hok
  | refresh q' =>
    obtain rfl := Option.some.inj hwritten
    have hok : (s.cache.refresh s.files q').1 = .ok xs := by
      rw [hs.answer_refresh]
      exact Outcome.toOption_eq_some_iff.1 hleaves
    exact hs.spelling?_refresh hok
  | invalidate _ => cases hwritten
  | clear => cases hwritten
  | change _ => cases hwritten

/-- An operation that leaves nothing under a path leaves no spelling. -/
theorem spelling?_step_of_leaves_none (hs : s.cache.Faithful settings)
    (htouches : op.touches path = true) (hleaves : op.leaves settings s.files = none) :
    (s.step op).cache.spelling? path = none := by
  have hget := get?_step_of_touches hs htouches
  rw [hleaves] at hget
  unfold spelling?
  rw [Option.map_eq_none_iff.1 hget]
  rfl

/-- **A spelling stays** as long as each operation on the path leaves something there. -/
theorem spelling?_run (hs : s.cache.Faithful settings) {p : FilePath}
    (hp : s.cache.spelling? path = some p) {ops : List Operation}
    (hops : ∀ before op after, ops = before ++ op :: after → op.touches path = true →
      ∃ xs, op.leaves settings (s.run before).files = some xs) :
    (s.run ops).cache.spelling? path = some p := by
  induction ops using List.reverseRecOn with
  | nil => exact hp
  | append_singleton ops op ih =>
    have hrest : (s.run ops).cache.spelling? path = some p :=
      ih fun before op' after hcut => hops before op' (after ++ [op]) (by simp [hcut])
    rw [run_concat]
    by_cases htouches : op.touches path = true
    · obtain ⟨xs, hleaves⟩ := hops ops op [] rfl htouches
      obtain ⟨q, hwritten, hsame⟩ : ∃ q, op.written? = some q ∧ q.same path = true := by
        cases op with
        | insert q text => exact ⟨q, rfl, htouches⟩
        | refresh q => exact ⟨q, rfl, htouches⟩
        | invalidate _ => cases hleaves
        | clear => cases hleaves
        | change _ => cases hleaves
      rw [spelling?_step_of_leaves (faithful_run hs ops) hwritten hsame hleaves, hrest]
      rfl
    · unfold spelling? at hrest ⊢
      rw [entry?_step_of_not_touches (Bool.eq_false_iff.2 htouches)]
      exact hrest

/-- Two histories that end with the same texts list the same, if they spell each path alike. -/
theorem machines_run_eq {files files' : Files} {ops ops' : List Operation}
    (hspelled : SpelledAlike (ops ++ ops'))
    (htext : ∀ path, ((start settings files).run ops).cache.text? path =
      ((start settings files').run ops').cache.text? path) :
    ((start settings files).run ops).cache.machines =
      ((start settings files').run ops').cache.machines := by
  have hs : ((start settings files).run ops).cache.Faithful settings :=
    faithful_run (s := start settings files) (.empty settings) ops
  have hs' : ((start settings files').run ops').cache.Faithful settings :=
    faithful_run (s := start settings files') (.empty settings) ops'
  have hpath {e e' : CacheEntry} (he : e ∈ ((start settings files).run ops).cache.entries)
      (he' : e' ∈ ((start settings files').run ops').cache.entries)
      (hsame : e.path.same e'.path = true) : e.path = e'.path := by
    refine hspelled e.path ?_ e'.path ?_ hsame
    · rw [List.filterMap_append]
      exact List.mem_append_left _ (path_of_mem_run he)
    · rw [List.filterMap_append]
      exact List.mem_append_right _ (path_of_mem_run he')
  have hmem (e : CacheEntry) : e ∈ ((start settings files).run ops).cache.entries ↔
      e ∈ ((start settings files').run ops').cache.entries := by
    constructor
    · intro he
      refine hs.mem_of_text? hs' he (htext e.path) fun f hf hsame => ?_
      exact (hpath he hf ((FilePath.same_comm _ _).trans hsame)).symm
    · intro he
      exact hs'.mem_of_text? hs he (htext e.path).symm fun f hf hsame => hpath hf he hsame
  have hentries := hs.ascending.inOrder.eq_of_asymm (fun _ _ => FilePath.Before.asymm)
    (hs'.ascending.inOrder.congr fun p e => and_congr_left' (hmem e))
  unfold machines
  rw [hentries]

/-! ## 5. Any history -/

/-- **The listing of a cache is canonical.** Whatever has been done to a cache and to the files, its
paths are all different and ascend by their components, and the analyses are listed in this order,
those of one path in the order of its text. What is put under a path that is there keeps the
spelling under which it stands, as does every later operation that leaves something; under a path
that is not there, or that has been dropped, it has its own. Two histories in which each path at
which something is put is always spelled alike list the same if they end with the same text under
each path. -/
theorem canonical_listing (settings : Settings) (files : Files) (ops : List Operation) :
    let s := (start settings files).run ops
    (s.cache.entries.Pairwise fun e f =>
      e.path.components ≠ f.path.components ∧ e.path.Before f.path) ∧
    InOrder (Prod.Lex FilePath.Before (· < ·)) (s.cache.ListedAt settings) s.cache.machines ∧
    (∀ op path q xs, op.written? = some q → q.same path = true →
      op.leaves settings s.files = some xs →
        (s.step op).cache.spelling? path = some ((s.cache.spelling? path).getD q)) ∧
    (∀ op path, op.touches path = true → op.leaves settings s.files = none →
      (s.step op).cache.spelling? path = none) ∧
    (∀ path p later, s.cache.spelling? path = some p →
      (∀ before op after, later = before ++ op :: after → op.touches path = true →
        ∃ xs, op.leaves settings (s.run before).files = some xs) →
      (s.run later).cache.spelling? path = some p) ∧
    ∀ files' ops', SpelledAlike (ops ++ ops') →
      (∀ path, s.cache.text? path = ((start settings files').run ops').cache.text? path) →
        s.cache.machines = ((start settings files').run ops').cache.machines := by
  intro s
  have hs : s.cache.Faithful settings :=
    faithful_run (s := start settings files) (.empty settings) ops
  refine ⟨?_, hs.inOrder_machines,
    fun op path q xs hwritten hsame => spelling?_step_of_leaves hs hwritten hsame,
    fun op path => spelling?_step_of_leaves_none hs, fun path p later hp => spelling?_run hs hp,
    fun files' ops' => machines_run_eq⟩
  refine List.Pairwise.imp (fun {e f} hlt => ⟨fun heq => ?_, FilePath.compare_eq_lt_iff.1 hlt⟩)
    hs.ascending
  rw [FilePath.compare_eq_eq_iff.2 (FilePath.same_iff.2 heq)] at hlt
  cases hlt

/-- The text of a file with two machines. -/
def pairText : String :=
  "import \x7b Machine \x7d from '@xstate/compiled';\nMachine<C, E, 'left'>(\x7b\x7d);\n" ++
    "Machine<C, E, 'right'>(\x7b\x7d);\n"

/-- Two files that are put in either order, one of them twice and dropped in between in another
spelling, are listed alike; the one that is in a directory comes first. -/
theorem pair_listed_in_directory :
    let ops : List Operation := [.insert ⟨"a.b.ts"⟩ pairText, .insert ⟨"a/b.ts"⟩ pairText]
    let ops' : List Operation := [.insert ⟨"a/b.ts"⟩ pairText, .invalidate ⟨"a//b.ts"⟩,
      .insert ⟨"a/b.ts"⟩ pairText, .insert ⟨"a.b.ts"⟩ pairText]
    let s := (start {} fun _ => .error .notFound).run ops
    let s' := (start {} fun _ => .error .notFound).run ops'
    SpelledAlike (ops ++ ops') ∧ (∀ path, s.cache.text? path = s'.cache.text? path) ∧
      s.cache.machines = s'.cache.machines ∧
      s.cache.machines.map (fun item => (item.1.spelling, item.2.id)) =
        [("a/b.ts", "left"), ("a/b.ts", "right"), ("a.b.ts", "left"), ("a.b.ts", "right")] ∧
      (s.step (.insert ⟨"a/./b.ts"⟩ pairText)).cache.spelling? ⟨"a//b.ts"⟩ = some ⟨"a/b.ts"⟩ := by
  intro ops ops' s s'
  have hpair : (Analysis.ofText .plain {} pairText).toOption.any
      (fun xs => xs.map Analysis.id == ["left", "right"]) = true := by decide +kernel
  obtain ⟨pair, hpair, hids⟩ := Outcome.exists_eq_ok hpair
  have hids : pair.map Analysis.id = ["left", "right"] := beq_iff_eq.1 hids
  have hinsert (entries : List CacheEntry) (path : FilePath) (hdialect : path.dialect = .plain)
      (hnew : entry? ⟨{}, entries⟩ path = none) :
      (Cache.insert ⟨{}, entries⟩ path pairText).2 =
        ⟨{}, place ⟨path, pairText, pair⟩ entries⟩ := by
    unfold Cache.insert
    simp only [hnew, Option.filter_none, hdialect, hpair]
  have hcompare : FilePath.compare ⟨"a/b.ts"⟩ ⟨"a.b.ts"⟩ = .lt ∧
      FilePath.compare ⟨"a.b.ts"⟩ ⟨"a/b.ts"⟩ = .gt := by decide
  have hsame : FilePath.same ⟨"a/b.ts"⟩ ⟨"a.b.ts"⟩ = false ∧
      FilePath.same ⟨"a.b.ts"⟩ ⟨"a/b.ts"⟩ = false ∧
      FilePath.same ⟨"a/b.ts"⟩ ⟨"a//b.ts"⟩ = true := by decide
  have hs : s.cache = ⟨{}, [⟨⟨"a/b.ts"⟩, pairText, pair⟩, ⟨⟨"a.b.ts"⟩, pairText, pair⟩]⟩ := by
    simp only [s, ops, run, List.foldl_cons, List.foldl_nil, step, start]
    rw [hinsert [] ⟨"a.b.ts"⟩ (by decide) rfl, place,
      hinsert _ ⟨"a/b.ts"⟩ (by decide) (by simp [hsame, entry?])]
    simp only [place, hcompare]
  have hs' : s'.cache = ⟨{}, [⟨⟨"a/b.ts"⟩, pairText, pair⟩, ⟨⟨"a.b.ts"⟩, pairText, pair⟩]⟩ := by
    simp only [s', ops', run, List.foldl_cons, List.foldl_nil, step, start, invalidate]
    have hdrop : Cache.drop ⟨{}, [⟨⟨"a/b.ts"⟩, pairText, pair⟩]⟩ ⟨"a//b.ts"⟩ = ⟨{}, []⟩ := by
      simp [drop, hsame]
    rw [hinsert [] ⟨"a/b.ts"⟩ (by decide) rfl, place, hdrop,
      hinsert [] ⟨"a/b.ts"⟩ (by decide) rfl, place,
      hinsert _ ⟨"a.b.ts"⟩ (by decide) (by simp [hsame, entry?])]
    simp only [place, hcompare]
  have hspelled : SpelledAlike (ops ++ ops') := by decide
  have htext (path : FilePath) : s.cache.text? path = s'.cache.text? path := by rw [hs, hs']
  have hleaves : (Operation.insert ⟨"a/./b.ts"⟩ pairText).leaves {} s.files = some pair := by
    have hdialect : FilePath.dialect ⟨"a/./b.ts"⟩ = .plain := by decide
    rw [Operation.leaves, hdialect, hpair]
    rfl
  obtain ⟨-, -, hstep, -, -, hlisting⟩ := canonical_listing {} (fun _ => .error .notFound) ops
  refine ⟨hspelled, htext, hlisting _ ops' hspelled htext, ?_, ?_⟩
  · have hlisted (path : FilePath) : (pair.map (path, ·)).map
        (fun item => (item.1.spelling, item.2.id)) =
          (pair.map Analysis.id).map (path.spelling, ·) := by
      rw [List.map_map, List.map_map]
      rfl
    rw [hs, machines, List.flatMap_cons, List.flatMap_cons, List.flatMap_nil, List.map_append,
      hlisted, List.append_nil, hlisted, hids]
    rfl
  · rw [hstep _ ⟨"a//b.ts"⟩ _ _ rfl (by decide) hleaves, hs]
    simp [spelling?, entry?, hsame]

end Session

end Cache

end Statechart
