import Statechart.Cache
import Statechart.Proofs.FilePath
import Statechart.Proofs.Outcome

/-!
# Entries of a cache

What the operations of a cache do to the entry of each path, one lemma for each of them. A cache is
faithful if its entries stand in ascending order of their paths, and each holds the analyses of its
own text. Main statement: every operation keeps a cache faithful, and in a faithful cache an answer
never shows whether it was kept or is new.
-/

namespace Statechart.Cache

/-! ## 1. Placing an entry -/

section Place

variable {e : CacheEntry} {path : FilePath}

/-- A placed entry is the one found under its path; only the spelling may be an older one. -/
theorem find?_place_of_same (h : e.path.same path = true) (entries : List CacheEntry) :
    ∃ f, (place e entries).find? (fun f => f.path.same path) = some f ∧
      f.text = e.text ∧ f.analyses = e.analyses := by
  induction entries with
  | nil => exact ⟨e, by simp [place, h], rfl, rfl⟩
  | cons f rest ih =>
    rw [place]
    split
    · exact ⟨e, by simp [h], rfl, rfl⟩
    · next heq =>
      have hf : f.path.same path = true := by
        rw [← FilePath.same_congr (FilePath.compare_eq_eq_iff.1 heq), h]
      exact ⟨{ e with path := f.path }, by simp [hf], rfl, rfl⟩
    · next hgt =>
      have hf : f.path.same path = false := by
        have hne : e.path.same f.path = false := FilePath.not_same_of_compare (by simp [hgt])
        rw [FilePath.same_comm, ← FilePath.same_congr h, hne]
      rw [List.find?_cons, hf]
      exact ih

/-- Placing an entry leaves what is found under other paths. -/
theorem find?_place_of_not_same (h : e.path.same path = false) (entries : List CacheEntry) :
    (place e entries).find? (fun f => f.path.same path) =
      entries.find? fun f => f.path.same path := by
  induction entries with
  | nil => simp [place, h]
  | cons f rest ih =>
    rw [place]
    split
    · simp [h]
    · next heq =>
      have hf : f.path.same path = false := by
        rw [← FilePath.same_congr (FilePath.compare_eq_eq_iff.1 heq), h]
      simp [hf]
    · rw [List.find?_cons, List.find?_cons, ih]

/-- The placed entry and the ones before are all there is, up to the spelling. -/
theorem mem_place {f : CacheEntry} {entries : List CacheEntry} (h : f ∈ place e entries) :
    f ∈ entries ∨ (f.path.same e.path = true ∧ f.text = e.text ∧ f.analyses = e.analyses) := by
  induction entries with
  | nil =>
    obtain rfl := List.mem_singleton.1 h
    exact Or.inr ⟨FilePath.same_self _, rfl, rfl⟩
  | cons g rest ih =>
    rw [place] at h
    split at h
    · rcases List.mem_cons.1 h with rfl | h
      · exact Or.inr ⟨FilePath.same_self _, rfl, rfl⟩
      · exact Or.inl h
    · next heq =>
      rcases List.mem_cons.1 h with rfl | h
      · refine Or.inr ⟨?_, rfl, rfl⟩
        rw [FilePath.same_comm]
        exact FilePath.compare_eq_eq_iff.1 heq
      · exact Or.inl (List.mem_cons_of_mem g h)
    · rcases List.mem_cons.1 h with rfl | h
      · exact Or.inl List.mem_cons_self
      · exact (ih h).imp_left (List.mem_cons_of_mem g)

end Place

/-- The entries stand in ascending order of their paths. -/
def Ascending (entries : List CacheEntry) : Prop :=
  entries.Pairwise fun e f => e.path.compare f.path = .lt

/-- **Placing keeps the order.** -/
theorem Ascending.place {entries : List CacheEntry} (h : Ascending entries) (e : CacheEntry) :
    Ascending (Cache.place e entries) := by
  unfold Ascending at *
  induction entries with
  | nil => exact List.pairwise_singleton _ _
  | cons f rest ih =>
    obtain ⟨hf, hrest⟩ := List.pairwise_cons.1 h
    rw [Cache.place]
    split
    · next hlt =>
      refine List.pairwise_cons.2 ⟨fun g hg => ?_, h⟩
      rcases List.mem_cons.1 hg with rfl | hg
      · exact hlt
      · exact FilePath.compare_lt_trans hlt (hf g hg)
    · exact List.pairwise_cons.2 ⟨hf, hrest⟩
    · next hgt =>
      refine List.pairwise_cons.2 ⟨fun g hg => ?_, ih hrest⟩
      have hfe : f.path.compare e.path = .lt := FilePath.compare_eq_gt_iff.1 hgt
      rcases mem_place hg with hg | ⟨hsame, -, -⟩
      · exact hf g hg
      · rw [FilePath.compare_congr hsame]
        exact hfe

/-- In ascending order no two entries are of one path. -/
theorem Ascending.not_same {entries : List CacheEntry} (h : Ascending entries) :
    entries.Pairwise fun e f => e.path.same f.path = false :=
  List.Pairwise.imp (fun hlt => FilePath.not_same_of_compare (by simp [hlt])) h

/-! ## 2. The entry of a path -/

variable {c : Cache} {path q : FilePath} {text : String}

/-- Spellings of one path share an entry. -/
theorem entry?_congr (h : path.same q = true) (c : Cache) : c.entry? path = c.entry? q := by
  have hsame : (fun e : CacheEntry => e.path.same path) = fun e => e.path.same q := by
    funext e
    rw [FilePath.same_comm, FilePath.same_congr h, FilePath.same_comm]
  unfold entry?
  rw [hsame]

theorem mem_of_entry? {e : CacheEntry} (h : c.entry? path = some e) :
    e ∈ c.entries ∧ e.path.same path = true :=
  ⟨List.mem_of_find?_eq_some h, List.find?_some (p := fun e : CacheEntry => e.path.same path) h⟩

/-- One cache is another in which a path has lost its entry, and no other path has. -/
structure Lacks (c' c : Cache) (path : FilePath) : Prop where
  gone : c'.entry? path = none
  others : ∀ q, path.same q = false → c'.entry? q = c.entry? q

theorem lacks_drop (c : Cache) (path : FilePath) : (c.drop path).Lacks c path where
  gone := by
    unfold entry? drop
    rw [List.find?_filter]
    exact List.find?_eq_none.2 fun e _ => by simp
  others q hq := by
    unfold entry? drop
    rw [List.find?_filter]
    congr 1
    funext e
    by_cases he : e.path.same q = true
    · have hpath : e.path.same path = false := by
        rw [FilePath.same_congr he, FilePath.same_comm, hq]
      simp [he, hpath]
    · simp [he]

/-- An insertion touches the entry of its path only. -/
theorem entry?_insert_of_not_same (hq : path.same q = false) :
    entry? (c.insert path text).2 q = c.entry? q := by
  unfold insert
  split
  · rfl
  · split
    · next analyses _ =>
      exact find?_place_of_not_same (e := ⟨path, text, analyses⟩) hq c.entries
    · exact (lacks_drop c path).others q hq

theorem entry?_refresh_of_not_same {files : Files} (hq : path.same q = false) :
    entry? (c.refresh files path).2 q = c.entry? q := by
  unfold refresh
  split
  · exact entry?_insert_of_not_same hq
  · exact (lacks_drop c path).others q hq

/-! ## 3. Faithful caches -/

/-- **The cache holds what it should**: every entry has the analyses of its text, and the entries
are in order. -/
structure Faithful (settings : Settings) (c : Cache) : Prop where
  settings_eq : c.settings = settings
  ascending : Ascending c.entries
  analysed : ∀ e ∈ c.entries, Analysis.ofText e.path.dialect settings e.text = .ok e.analyses

namespace Faithful

variable {settings : Settings}

theorem empty (settings : Settings) : Faithful settings { settings } where
  settings_eq := rfl
  ascending := List.Pairwise.nil
  analysed _ he := absurd he List.not_mem_nil

theorem clear (h : Faithful settings c) : Faithful settings c.clear where
  settings_eq := h.settings_eq
  ascending := List.Pairwise.nil
  analysed _ he := absurd he List.not_mem_nil

theorem drop (h : Faithful settings c) (path : FilePath) : Faithful settings (c.drop path) where
  settings_eq := h.settings_eq
  ascending := List.Pairwise.filter _ h.ascending
  analysed e he := h.analysed e (List.mem_filter.1 he).1

theorem place (h : Faithful settings c) {analyses : List Analysis}
    (hok : Analysis.ofText path.dialect settings text = .ok analyses) :
    Faithful settings { c with entries := Cache.place ⟨path, text, analyses⟩ c.entries } where
  settings_eq := h.settings_eq
  ascending := h.ascending.place _
  analysed e he := by
    rcases mem_place he with he | ⟨hpath, htext, hanalyses⟩
    · exact h.analysed e he
    · rw [FilePath.dialect_of_same hpath, htext, hanalyses]
      exact hok

/-- An entry that is kept under a path with a text holds the analyses of that text at that path. -/
theorem ofText_of_entry? (h : Faithful settings c) {e : CacheEntry}
    (he : c.entry? path = some e) :
    Analysis.ofText path.dialect settings e.text = .ok e.analyses := by
  obtain ⟨hmem, hsame⟩ := mem_of_entry? he
  rw [← FilePath.dialect_of_same hsame]
  exact h.analysed e hmem

/-- **What an insertion does**: it answers with the analyses of the text; these are then kept if
there are any, and the path is dropped if there are none. -/
theorem insert_cases (h : Faithful settings c) (path : FilePath) (text : String) :
    Faithful settings (c.insert path text).2 ∧
      ((∃ analyses, Analysis.ofText path.dialect settings text = .ok analyses ∧
          (c.insert path text).1 = .ok analyses ∧
          ∃ e, entry? (c.insert path text).2 path = some e ∧ e.analyses = analyses) ∨
        ∃ error, Analysis.ofText path.dialect settings text = .error error ∧
          c.insert path text = (.error error, c.drop path)) := by
  unfold insert
  split
  · next e he =>
    obtain ⟨hentry, htext⟩ := Option.filter_eq_some_iff.1 he
    have hok := h.ofText_of_entry? hentry
    rw [of_decide_eq_true htext] at hok
    exact ⟨h, Or.inl ⟨_, hok, rfl, e, hentry, rfl⟩⟩
  · split
    · next analyses hok =>
      rw [h.settings_eq] at hok
      obtain ⟨e, he, -, hanalyses⟩ := find?_place_of_same (e := ⟨path, text, analyses⟩)
        (FilePath.same_self path) c.entries
      exact ⟨h.place hok, Or.inl ⟨_, hok, rfl, e, he, hanalyses⟩⟩
    · next error herror =>
      rw [h.settings_eq] at herror
      exact ⟨h.drop path, Or.inr ⟨error, herror, rfl⟩⟩

theorem insert (h : Faithful settings c) (path : FilePath) (text : String) :
    Faithful settings (c.insert path text).2 :=
  (h.insert_cases path text).1

/-- **An insertion answers as the analysis does**, whatever is kept. -/
theorem answer_insert (h : Faithful settings c) (path : FilePath) (text : String) :
    (c.insert path text).1 = Analysis.ofText path.dialect settings text := by
  rcases (h.insert_cases path text).2 with ⟨analyses, hok, hanswer, -⟩ | ⟨error, herror, hinsert⟩
  · rw [hanswer, hok]
  · rw [hinsert, herror]

theorem get?_insert_self (h : Faithful settings c) (path : FilePath) (text : String) :
    (c.insert path text).2.get? path = (Analysis.ofText path.dialect settings text).toOption := by
  unfold get?
  rcases (h.insert_cases path text).2 with ⟨_, hok, -, e, he, rfl⟩ | ⟨error, herror, hinsert⟩
  · rw [he, hok]
    rfl
  · rw [hinsert, herror, (lacks_drop c path).gone]
    rfl

theorem lacks_insert (h : Faithful settings c) {error : AnalysisError}
    (herror : (c.insert path text).1 = .error error) : (c.insert path text).2.Lacks c path := by
  rcases (h.insert_cases path text).2 with ⟨_, -, hanswer, -⟩ | ⟨_, -, hinsert⟩
  · rw [hanswer] at herror
    cases herror
  · rw [hinsert]
    exact lacks_drop c path

section Refresh

variable {files : Files}

theorem analyses_of_read (hread : files.read path = .ok text) :
    files.analyses settings path = Analysis.ofText path.dialect settings text := by
  unfold Files.analyses
  rw [hread, Outcome.ok_bind]

theorem analyses_of_read_error {error : AnalysisError} (hread : files.read path = .error error) :
    files.analyses settings path = .error error := by
  unfold Files.analyses
  rw [hread]
  rfl

/-- Reading a file anew is inserting its text. -/
theorem refresh_of_read (hread : files.read path = .ok text) (c : Cache) :
    c.refresh files path = c.insert path text := by
  unfold Cache.refresh
  rw [hread]

theorem refresh_of_read_error {error : AnalysisError} (hread : files.read path = .error error)
    (c : Cache) : c.refresh files path = (.error error, c.drop path) := by
  unfold Cache.refresh
  rw [hread]

theorem refresh (h : Faithful settings c) (files : Files) (path : FilePath) :
    Faithful settings (c.refresh files path).2 := by
  cases hread : files.read path with
  | ok text =>
    rw [refresh_of_read hread]
    exact h.insert path text
  | error error =>
    rw [refresh_of_read_error hread]
    exact h.drop path

/-- **Reading anew answers as the analysis of the file does.** -/
theorem answer_refresh (h : Faithful settings c) (files : Files) (path : FilePath) :
    (c.refresh files path).1 = files.analyses settings path := by
  cases hread : files.read path with
  | ok text => rw [refresh_of_read hread, h.answer_insert, analyses_of_read hread]
  | error error => rw [refresh_of_read_error hread, analyses_of_read_error hread]

theorem get?_refresh_self (h : Faithful settings c) (files : Files) (path : FilePath) :
    (c.refresh files path).2.get? path = (files.analyses settings path).toOption := by
  cases hread : files.read path with
  | ok text => rw [refresh_of_read hread, h.get?_insert_self, analyses_of_read hread]
  | error error =>
    rw [refresh_of_read_error hread, analyses_of_read_error hread]
    unfold get?
    rw [(lacks_drop c path).gone]
    rfl

theorem lacks_refresh (h : Faithful settings c) {error : AnalysisError}
    (herror : (c.refresh files path).1 = .error error) :
    (c.refresh files path).2.Lacks c path := by
  cases hread : files.read path with
  | ok text =>
    rw [refresh_of_read hread] at *
    exact h.lacks_insert herror
  | error error' =>
    rw [refresh_of_read_error hread]
    exact lacks_drop c path

end Refresh

end Faithful

end Statechart.Cache
