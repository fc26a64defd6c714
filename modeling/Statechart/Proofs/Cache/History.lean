import Mathlib.Data.List.Induction
import Statechart.Proofs.Cache.Entries

/-!
# Histories of a cache

A session is a cache together with the files it reads from. What is done to the cache and what
happens to the files meanwhile is a list of operations. Main statement: after any of them the cache
answers as if nothing were kept, and what it keeps under a path is what the last operation on that
path left there.
-/

namespace Statechart

/-! ## 1. Sessions -/

namespace Cache

/-- What may be done to a cache, or happen to the files. -/
inductive Operation
  | insert (path : FilePath) (text : String)
  | refresh (path : FilePath)
  | invalidate (path : FilePath)
  | clear
  /-- The files become others. -/
  | change (files : Files)

namespace Operation

/-- Whether an operation is on a path, in whatever spelling. Clearing is on every path. -/
def touches (path : FilePath) : Operation → Bool
  | insert q _ => q.same path
  | refresh q => q.same path
  | invalidate q => q.same path
  | clear => true
  | change _ => false

/-- The analyses that an operation on some path leaves there, where the files are as given: those of
the text that is put there, unless it cannot be read or analysed. -/
def leaves (settings : Settings) (files : Files) : Operation → Option (List Analysis)
  | insert path text => (Analysis.ofText path.dialect settings text).toOption
  | refresh path => (files.analyses settings path).toOption
  | _ => none

end Operation

/-- A cache and the files it reads from. -/
structure Session where
  files : Files
  cache : Cache

namespace Session

/-- An empty cache with some files. -/
def start (settings : Settings) (files : Files) : Session := ⟨files, { settings }⟩

/-- The session after an operation. -/
def step (s : Session) : Operation → Session
  | .insert path text => { s with cache := (s.cache.insert path text).2 }
  | .refresh path => { s with cache := (s.cache.refresh s.files path).2 }
  | .invalidate path => { s with cache := (s.cache.invalidate path).2 }
  | .clear => { s with cache := s.cache.clear }
  | .change files => { s with files }

/-- The session after some operations, one after the other. -/
def run (s : Session) (ops : List Operation) : Session := ops.foldl step s

theorem run_concat (s : Session) (ops : List Operation) (op : Operation) :
    s.run (ops ++ [op]) = (s.run ops).step op := by
  unfold run
  rw [List.foldl_append]
  rfl

/-! ## 2. One operation -/

variable {s : Session} {settings : Settings} {path : FilePath}

theorem faithful_step (h : s.cache.Faithful settings) (op : Operation) :
    (s.step op).cache.Faithful settings := by
  cases op with
  | insert path text => exact h.insert path text
  | refresh path => exact h.refresh s.files path
  | invalidate path => exact h.drop path
  | clear => exact h.clear
  | change files => exact h

/-- **An operation on other paths leaves an entry as it is.** -/
theorem entry?_step_of_not_touches {op : Operation} (h : op.touches path = false) :
    entry? (s.step op).cache path = s.cache.entry? path := by
  cases op with
  | insert q text => exact entry?_insert_of_not_same h
  | refresh q => exact entry?_refresh_of_not_same h
  | invalidate q => exact (lacks_drop s.cache q).others path h
  | clear => cases h
  | change files => rfl

/-- **An operation on a path settles what is kept there.** -/
theorem get?_step_of_touches (hs : s.cache.Faithful settings) {op : Operation}
    (h : op.touches path = true) :
    (s.step op).cache.get? path = op.leaves settings s.files := by
  cases op with
  | insert q text =>
    unfold get?
    rw [← entry?_congr h]
    exact hs.get?_insert_self q text
  | refresh q =>
    unfold get?
    rw [← entry?_congr h]
    exact hs.get?_refresh_self s.files q
  | invalidate q =>
    unfold get?
    rw [← entry?_congr h]
    show ( entry? (s.cache.drop q) q).map CacheEntry.analyses = none
    rw [(lacks_drop s.cache q).gone]
    rfl
  | clear => rfl
  | change files => cases h

/-! ## 3. Many operations -/

theorem faithful_run (h : s.cache.Faithful settings) (ops : List Operation) :
    (s.run ops).cache.Faithful settings := by
  induction ops generalizing s with
  | nil => exact h
  | cons op ops ih => exact ih (faithful_step h op)

/-- The last operation on a path leaves something there. -/
def LastLeaves (s : Session) (settings : Settings) (ops : List Operation) (path : FilePath)
    (analyses : List Analysis) : Prop :=
  ∃ before op after, ops = before ++ op :: after ∧ op.touches path = true ∧
    (∀ later ∈ after, later.touches path = false) ∧
    op.leaves settings (s.run before).files = some analyses

/-- An operation stands last in a history, or the history is cut short by the last one. -/
theorem cut_concat {ops before after : List Operation} {op op' : Operation}
    (h : ops ++ [op] = before ++ op' :: after) :
    (after = [] ∧ ops = before ∧ op = op') ∨
      ∃ rest, after = rest ++ [op] ∧ ops = before ++ op' :: rest := by
  rcases List.eq_nil_or_concat after with rfl | ⟨rest, last, rfl⟩
  · obtain ⟨hops, hop⟩ := List.append_inj' h rfl
    exact Or.inl ⟨rfl, hops, List.singleton_inj.1 hop⟩
  · have hcut : ops ++ [op] = (before ++ op' :: rest) ++ [last] := by simpa using h
    obtain ⟨hops, hop⟩ := List.append_inj' hcut rfl
    exact Or.inr ⟨rest, by rw [List.singleton_inj.1 hop, List.concat_eq_append], hops⟩

theorem lastLeaves_concat_of_touches {ops : List Operation} {op : Operation}
    {analyses : List Analysis} (h : op.touches path = true) :
    s.LastLeaves settings (ops ++ [op]) path analyses ↔
      op.leaves settings (s.run ops).files = some analyses := by
  constructor
  · intro hlast
    obtain ⟨before, op', after, hops, -, hafter, hleaves⟩ := hlast
    rcases cut_concat hops with ⟨-, rfl, rfl⟩ | ⟨rest, rfl, -⟩
    · exact hleaves
    · rw [hafter op (by simp)] at h
      cases h
  · intro hleaves
    exact ⟨ops, op, [], rfl, h, List.forall_mem_nil _, hleaves⟩

theorem lastLeaves_concat_of_not_touches {ops : List Operation} {op : Operation}
    {analyses : List Analysis} (h : op.touches path = false) :
    s.LastLeaves settings (ops ++ [op]) path analyses ↔
      s.LastLeaves settings ops path analyses := by
  constructor
  · intro hlast
    obtain ⟨before, op', after, hops, htouches, hafter, hleaves⟩ := hlast
    rcases cut_concat hops with ⟨-, -, rfl⟩ | ⟨rest, rfl, rfl⟩
    · rw [htouches] at h
      cases h
    · exact ⟨before, op', rest, rfl, htouches,
        fun later hlater => hafter later (List.mem_append_left _ hlater), hleaves⟩
  · intro hlast
    obtain ⟨before, op', after, rfl, htouches, hafter, hleaves⟩ := hlast
    refine ⟨before, op', after ++ [op], by simp, htouches, fun later hlater => ?_, hleaves⟩
    rcases List.mem_append.1 hlater with hlater | hlater
    · exact hafter later hlater
    · rwa [List.mem_singleton.1 hlater]

/-- **What is kept under a path is what the last operation on it left there.** -/
theorem get?_run_eq_some_iff (settings : Settings) (files : Files) (ops : List Operation)
    (path : FilePath) (analyses : List Analysis) :
    ((start settings files).run ops).cache.get? path = some analyses ↔
      (start settings files).LastLeaves settings ops path analyses := by
  -- from the end of the history: the last operation is on the path or not
  induction ops using List.reverseRecOn with
  | nil =>
    constructor
    · intro h
      cases h
    · intro h
      obtain ⟨before, op, after, hops, -⟩ := h
      cases before <;> cases hops
  | append_singleton ops op ih =>
    rw [run_concat]
    by_cases h : op.touches path = true
    · have hs := faithful_run (s := start settings files) (.empty settings) ops
      rw [get?_step_of_touches hs h, lastLeaves_concat_of_touches h]
    · have h' := Bool.eq_false_iff.2 h
      unfold get? at *
      rw [entry?_step_of_not_touches h', ih, lastLeaves_concat_of_not_touches h']

/-! ## 4. Any history -/

/-- **A cache is transparent and never stale.** Whatever has been done to a cache, and to the files,
it answers an insertion as the analysis of the text does and a reading as the analysis of the file
does at that moment. What it keeps under a path is what the last operation on that path left there,
clearing being one on every path. A text or a file that cannot be analysed costs its path the entry,
and so does invalidation, which tells whether there was one; all other entries stay. Spellings of
one path share their entry, and no two entries are of one path. -/
theorem transparent_run (settings : Settings) (files : Files) (ops : List Operation) :
    let s := (start settings files).run ops
    (∀ path text, (s.cache.insert path text).1 = Analysis.ofText path.dialect settings text) ∧
    (∀ path, (s.cache.refresh s.files path).1 = s.files.analyses settings path) ∧
    (∀ path analyses, s.cache.get? path = some analyses ↔
      (start settings files).LastLeaves settings ops path analyses) ∧
    (∀ path text error, (s.cache.insert path text).1 = .error error →
      (s.cache.insert path text).2.Lacks s.cache path) ∧
    (∀ path error, (s.cache.refresh s.files path).1 = .error error →
      (s.cache.refresh s.files path).2.Lacks s.cache path) ∧
    (∀ path, ((s.cache.invalidate path).1 = true ↔ ∃ analyses, s.cache.get? path = some analyses) ∧
      (s.cache.invalidate path).2.Lacks s.cache path) ∧
    (∀ path q, path.same q = true → s.cache.entry? path = s.cache.entry? q) ∧
    s.cache.entries.Pairwise fun e f => e.path.same f.path = false := by
  intro s
  have hs : s.cache.Faithful settings :=
    faithful_run (s := start settings files) (.empty settings) ops
  refine ⟨hs.answer_insert, hs.answer_refresh s.files, get?_run_eq_some_iff settings files ops,
    fun path text error herror => hs.lacks_insert herror,
    fun path error herror => hs.lacks_refresh herror, fun path => ⟨?_, lacks_drop s.cache path⟩,
    fun path q hsame => entry?_congr hsame s.cache, hs.ascending.not_same⟩
  unfold invalidate get?
  cases s.cache.entry? path <;> simp

/-- The text of a file with one machine. -/
def lampText : String :=
  "import \x7b Machine \x7d from '@xstate/compiled';\nMachine<C, E, 'lamp'>(\x7b\x7d);\n"

/-- A file that is gone when it is read again loses its entry, in whatever spelling, and another
file keeps its own. -/
theorem lamp_lost_when_gone :
    let s := (start {} fun _ => .error .notFound).run
      [.insert ⟨"src/lamp.ts"⟩ lampText, .insert ⟨"lamp.ts"⟩ lampText]
    let gone := s.cache.refresh s.files ⟨"src//lamp.ts"⟩
    ∃ analyses, analyses.map Analysis.id = ["lamp"] ∧
      s.cache.get? ⟨"src/lamp.ts"⟩ = some analyses ∧
      gone.1 = .error (.read ⟨"src//lamp.ts"⟩ .notFound) ∧
      gone.2.get? ⟨"src/lamp.ts"⟩ = none ∧ gone.2.get? ⟨"lamp.ts"⟩ = some analyses := by
  intro s gone
  have htext : (Analysis.ofText .plain {} lampText).toOption.any
      (fun analyses => analyses.map Analysis.id == ["lamp"]) = true := by decide +kernel
  obtain ⟨analyses, hok, hid⟩ := Outcome.exists_eq_ok htext
  obtain ⟨-, hrefresh, hget, -, hlacks, -, hshare, -⟩ :=
    transparent_run {} (fun _ => .error .notFound)
      [.insert ⟨"src/lamp.ts"⟩ lampText, .insert ⟨"lamp.ts"⟩ lampText]
  have hleaves (path : FilePath) (hpath : path.dialect = .plain) :
      (Operation.insert path lampText).leaves {} s.files = some analyses := by
    show (Analysis.ofText path.dialect {} lampText).toOption = some analyses
    rw [hpath, hok]
    rfl
  have hfirst : s.cache.get? ⟨"src/lamp.ts"⟩ = some analyses :=
    (hget _ _).2 ⟨[], _, [.insert ⟨"lamp.ts"⟩ lampText], rfl, by decide, by decide,
      hleaves _ (by decide)⟩
  have hsecond : s.cache.get? ⟨"lamp.ts"⟩ = some analyses :=
    (hget _ _).2 ⟨[.insert ⟨"src/lamp.ts"⟩ lampText], _, [], rfl, by decide, by decide,
      hleaves _ (by decide)⟩
  have hgone : gone.1 = .error (.read ⟨"src//lamp.ts"⟩ .notFound) := hrefresh _
  have hlost := hlacks _ _ hgone
  refine ⟨analyses, by simpa using hid, hfirst, hgone, ?_, ?_⟩
  · unfold get?
    rw [entry?_congr (q := ⟨"src//lamp.ts"⟩) (by decide), hlost.gone]
    rfl
  · unfold get? at *
    rw [hlost.others _ (by decide), hsecond]

end Session

end Cache

end Statechart
