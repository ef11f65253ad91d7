import FlowLog.Command.Run
import FlowLog.Proofs.CommandLines
import FlowLog.Proofs.Merging
import FlowLog.Proofs.RoundTrip
import Mathlib.Data.List.Forall2

/-! Merging files. Every input is loaded before the output is opened, so an input that cannot be loaded
leaves all files as they are, wherever it stands; and the output may be one of the inputs, for what is
written was read before. What is written can be loaded in turn, since it differs from what was read in
the numbers of the events only. -/

namespace FlowLog
namespace Files

variable {fs : Files} {p q : Path} {s : String}

/-- A file can be created where the path means a place that is no directory. -/
def CreatesAt (fs : Files) (s : String) (p : Path) : Prop :=
  fs.resolve s = .ok p ∧ fs.isDirectory p = false

/-- The files differ at most in what one place holds. -/
structure AgreeBut (p : Path) (fs fs' : Files) : Prop where
  working : fs'.working = fs.working
  directories : fs'.directories = fs.directories
  contents : ∀ q, p ≠ q → fs'.get? q = fs.get? q

theorem agreeBut_write (fs : Files) (p : Path) (bytes : List UInt8) :
    AgreeBut p fs (fs.write p bytes) := ⟨rfl, rfl, fun _ h => write_get_ne fs bytes h⟩

theorem create?_of_createsAt (h : fs.CreatesAt s p) (bytes : List UInt8) :
    fs.create? s bytes = some (fs.write p bytes) := by simp [create?, h.1, h.2]

theorem create?_eq_none (h : ∀ p, ¬fs.CreatesAt s p) (bytes : List UInt8) :
    fs.create? s bytes = none := by
  unfold create?
  split
  · rename_i p hp
    exact if_pos (Bool.not_eq_false _ ▸ fun hdir => h p ⟨hp, hdir⟩)
  · rfl

/-! What a path means depends on the directories only, unless it means nothing. -/

theorem step_eq_ok {name : String} : fs.step p name = .ok q ↔
    fs.isDirectory p ∧ name.utf8ByteSize ≤ Path.maxName ∧ p.move name = q := by
  unfold step
  by_cases hdir : fs.isDirectory p
  · by_cases hlong : Path.maxName < name.utf8ByteSize
    · simp [hdir, hlong]
    · simp [hdir, hlong, Nat.le_of_not_lt hlong]
  · simp [hdir]

theorem foldlM_step_write {bytes : List UInt8} {names : List String} {r : Path} :
    names.foldlM (fs.write p bytes).step q = .ok r ↔ names.foldlM fs.step q = .ok r := by
  induction names generalizing q with
  | nil => rfl
  | cons name names ih =>
    simp only [List.foldlM_cons, bind_eq_ok, step_eq_ok, ih]
    rfl

theorem resolve_write {bytes : List UInt8} :
    (fs.write p bytes).resolve s = .ok q ↔ fs.resolve s = .ok q := by
  unfold resolve
  split
  · rfl
  · split
    · rfl
    · exact foldlM_step_write

theorem read?_eq_some {bytes : List UInt8} : fs.read? s = some bytes ↔
    ∃ p, fs.resolve s = .ok p ∧ fs.isDirectory p = false ∧ fs.get? p = some bytes := by
  unfold read? find
  cases hp : fs.resolve s with
  | error e => simp [bind, Except.bind]
  | ok p =>
    by_cases hdir : fs.isDirectory p
    · simp [bind, Except.bind, hdir]
    · cases hget : fs.get? p <;> simp [bind, Except.bind, hdir, hget]

theorem read?_write (h : fs.CreatesAt s p) (bytes : List UInt8) :
    (fs.write p bytes).read? s = some bytes :=
  read?_eq_some.2 ⟨p, resolve_write.2 h.1, h.2, write_get_self fs p bytes⟩

theorem read?_write_of_ne (h : fs.resolve s ≠ .ok p) (bytes : List UInt8) :
    (fs.write p bytes).read? s = fs.read? s := by
  apply Option.ext
  intro found
  simp only [read?_eq_some, resolve_write]
  refine exists_congr fun q => and_congr_right fun hq => ?_
  have hne : p ≠ q := by
    rintro rfl
    exact h hq
  rw [write_get_ne fs bytes hne]
  rfl

end Files

theorem hasShortYears_of_mem_mergeStreams {streams : List (List Event)}
    (h : ∀ s ∈ streams, ∀ e ∈ s, e.HasShortYears) : ∀ e ∈ mergeStreams streams, e.HasShortYears := by
  intro e he
  have hmem : e.unnumbered ∈ (interleave streams).map Event.unnumbered := by
    rw [← (mergeStreams_numbered streams).others]
    exact List.mem_map_of_mem he
  obtain ⟨f, hf, heq⟩ := List.mem_map.1 hmem
  obtain ⟨s, hs, hfs⟩ := List.mem_flatten.1 ((interleave_perm streams).mem_iff.1 hf)
  have hyears : f.unnumbered.HasShortYears := h s hs f hfs
  rwa [heq] at hyears

namespace Command

/-- The file of the name is there and gives the events to a new store. -/
def Loads (files : Files) (name : String) (s : Store) : Prop :=
  ∃ bytes, files.read? name = some bytes ∧ (Store.new .standard).loadBytes? bytes = some s

/-- What a merge of files comes to: one that fails leaves all files, and one that is done leaves all
but its output. -/
inductive Merges (files : Files) (output : String) (inputs : List String) (o : Outcome) : Prop
  | notLoaded (input : String) (hinput : input ∈ inputs) (h : ∀ s, ¬Loads files input s)
    (hexit : o.exit = 1) (hfiles : o.files = files)
  | notCreated (stores : List Store) (h : List.Forall₂ (Loads files) inputs stores)
    (hcreate : ∀ p, ¬files.CreatesAt output p) (hexit : o.exit = 1) (hfiles : o.files = files)
  | written (stores : List Store) (h : List.Forall₂ (Loads files) inputs stores) (p : Path)
    (hcreate : files.CreatesAt output p) (hexit : o.exit = 0)
    (houtput : o.files.read? output =
      some (Utf8.encode (Event.jsonLines (mergeStreams (stores.map Store.events)))))
    (hback : ∃ s, Loads o.files output s ∧ s.events = mergeStreams (stores.map Store.events))
    (hnames : ∀ name, files.resolve name ≠ .ok p → o.files.read? name = files.read? name)
    (hplaces : Files.AgreeBut p files o.files)

variable {files : Files} {name output : String} {inputs : List String}

theorem openStore?_eq_some {s : Store} :
    openStore? files .standard name = some s ↔ Loads files name s := Option.bind_eq_some_iff

/-- A file of the list that is not loaded ends the run before anything else is done. -/
theorem withStores_of_not_loads (h : ∃ input ∈ inputs, ∀ s, ¬Loads files input s)
    (next : List Store → Outcome) : (withStores files .standard inputs next).exit = 1 ∧
      (withStores files .standard inputs next).files = files := by
  induction inputs generalizing next with
  | nil => simp at h
  | cons input inputs ih =>
    rw [withStores, withStore]
    cases hopen : openStore? files .standard input with
    | none => exact ⟨rfl, rfl⟩
    | some s =>
      obtain ⟨bad, hbad, hnot⟩ := h
      rcases List.mem_cons.1 hbad with rfl | hbad
      · exact absurd (openStore?_eq_some.1 hopen) (hnot s)
      · exact ih ⟨bad, hbad, hnot⟩ fun ss => next (s :: ss)

/-- When all files are loaded, the run goes on with their stores in the order of the list. -/
theorem withStores_of_loads {stores : List Store} (h : List.Forall₂ (Loads files) inputs stores)
    (next : List Store → Outcome) :
    (withStores files .standard inputs next).exit = (next stores).exit ∧
      (withStores files .standard inputs next).files = (next stores).files := by
  induction h generalizing next with
  | nil => exact ⟨rfl, rfl⟩
  | @cons input s inputs stores hs _ ih =>
    rw [withStores, withStore, openStore?_eq_some.2 hs]
    exact ih fun ss => next (s :: ss)

theorem exists_loads (h : ∀ input ∈ inputs, ∃ s, Loads files input s) :
    ∃ stores, List.Forall₂ (Loads files) inputs stores := by
  induction inputs with
  | nil => exact ⟨[], .nil⟩
  | cons input inputs ih =>
    obtain ⟨⟨s, hs⟩, hrest⟩ := List.forall_mem_cons.1 h
    obtain ⟨stores, hstores⟩ := ih hrest
    exact ⟨s :: stores, .cons hs hstores⟩

theorem hasShortYears_of_loads {stores : List Store}
    (h : List.Forall₂ (Loads files) inputs stores) : ∀ s ∈ stores, ∀ e ∈ s.events, e.HasShortYears := by
  induction h with
  | nil => nofun
  | cons hs _ ih =>
    obtain ⟨bytes, -, hload⟩ := hs
    exact List.forall_mem_cons.2 ⟨Store.hasShortYears_of_loadBytes? hload, ih⟩

section
variable {es : List Event} (h : files.read? name = some (Utf8.encode (Event.jsonLines es)))
  (hyears : ∀ e ∈ es, e.HasShortYears)
include h hyears

theorem loads_iff_of_read? {s : Store} :
    Loads files name s ↔ es.foldl Store.push (.new .standard) = s := by
  simp [Loads, h, Store.loadBytes?_written _ hyears]

/-- A file of events that were loaded or merged is loaded as these events. -/
theorem loads_of_read? : ∃ s, Loads files name s ∧ s.events = es :=
  ⟨_, (loads_iff_of_read? h hyears).2 rfl, Store.foldl_push_events (.new .standard) es⟩

end

theorem perform_merge (files : Files) (ports : ServicePorts) (output : String)
    (inputs : List String) :
    Merges files output inputs (perform files ports (.merge output inputs)) := by
  by_cases hload : ∀ input ∈ inputs, ∃ s, Loads files input s
  · obtain ⟨stores, hstores⟩ := exists_loads hload
    obtain ⟨hexit, hfiles⟩ := withStores_of_loads hstores (writeMerged files output)
    by_cases hcreate : ∃ p, files.CreatesAt output p
    · obtain ⟨p, hp⟩ := hcreate
      have hwritten := Files.create?_of_createsAt hp
      simp only [writeMerged, hwritten] at hexit hfiles
      have houtput : (withStores files .standard inputs (writeMerged files output)).files.read?
          output = some (Utf8.encode (Event.jsonLines (mergeStreams (stores.map Store.events)))) :=
        hfiles ▸ Files.read?_write hp _
      have hyears := hasShortYears_of_mem_mergeStreams
        (List.forall_mem_map.2 (hasShortYears_of_loads hstores))
      refine .written stores hstores p hp hexit houtput (loads_of_read? houtput hyears) ?_ ?_
      · exact fun name hname => hfiles ▸ Files.read?_write_of_ne hname _
      · exact hfiles ▸ Files.agreeBut_write files p _
    · have hnone := Files.create?_eq_none (not_exists.1 hcreate)
      simp only [writeMerged, hnone] at hexit hfiles
      exact .notCreated stores hstores (not_exists.1 hcreate) hexit hfiles
  · push Not at hload
    obtain ⟨input, hinput, hnot⟩ := hload
    obtain ⟨hexit, hfiles⟩ := withStores_of_not_loads ⟨input, hinput, hnot⟩ (writeMerged files output)
    exact .notLoaded input hinput hnot hexit hfiles

/-- Merging is all or nothing for all files, and whatever names a command line can give. -/
theorem run_merge (output : String) (inputs : List String) :
    ((∃ args config, parse args = .ok ⟨config, .merge output inputs⟩) ↔
        output ≠ "" ∧ inputs ≠ [] ∧ "" ∉ inputs) ∧
      ∀ files args config, parse args = .ok ⟨config, .merge output inputs⟩ →
        Merges files output inputs (run files args) := by
  refine ⟨exists_parse_merge, fun files args config h => ?_⟩
  rw [run, h]
  exact perform_merge files _ output inputs

/-! The output over one of the inputs, with events of both at one time. -/

/-- Files in the working directory. -/
def workplace (fs : List (String × List UInt8)) : Files :=
  ⟨["w"], fs.map fun f => (["w", f.1], f.2), [[], ["w"]]⟩

theorem names_letter {s : String} (h : s ∈ ["a", "b"]) : Path.names s = [s] := by
  simp only [List.mem_cons, List.not_mem_nil, or_false] at h
  rcases h with rfl | rfl
  all_goals
    rw [Path.names, String.splitOn, if_neg (by decide), String.splitOnAux, if_neg (by decide),
      if_neg (by decide), String.splitOnAux, if_pos (by decide)]
    decide

theorem workplace_resolve (fs : List (String × List UInt8)) {s : String} (h : s ∈ ["a", "b"]) :
    (workplace fs).resolve s = .ok ["w", s] := by
  have hnames := names_letter h
  simp only [List.mem_cons, List.not_mem_nil, or_false] at h
  rcases h with rfl | rfl <;> rw [Files.resolve, hnames] <;> rfl

theorem run_merge_alias :
    let event (n : UInt64) (port : UInt16) : Event :=
      ⟨⟨n, ⟨0, by decide⟩, "10.0.0.2", "10.0.0.1", none, none⟩, .tcpBegin ⟨port, 80⟩⟩
    let inA := Utf8.encode (Event.jsonLines [event 7 1000])
    let inB := Utf8.encode (Event.jsonLines [event 7 2000, event 7 3000])
    let files := workplace [("a", inA), ("b", inB)]
    let merged := [event 1 2000, event 2 3000, event 3 1000]
    let o := run files (mergeLine "a" ["b", "a"])
    parse (mergeLine "a" ["b", "a"]) = .ok ⟨Config.path, .merge "a" ["b", "a"]⟩ ∧
    files.read? "a" = some inA ∧ files.read? "b" = some inB ∧ o.exit = 0 ∧
    o.files.read? "a" = some (Utf8.encode (Event.jsonLines merged)) ∧
    o.files.read? "b" = some inB ∧ ∃ s, Loads o.files "a" s ∧ s.events = merged := by
  intro event inA inB files merged o
  have hparse := parse_mergeLine (by decide : "a" ≠ "") (by decide : ["b", "a"] ≠ []) (by decide)
  have hplace {s : String} (h : s ∈ ["a", "b"]) := workplace_resolve [("a", inA), ("b", inB)] h
  have ha : files.read? "a" = some inA :=
    Files.read?_eq_some.2 ⟨["w", "a"], hplace (by decide), rfl, rfl⟩
  have hb : files.read? "b" = some inB :=
    Files.read?_eq_some.2 ⟨["w", "b"], hplace (by decide), rfl, rfl⟩
  have hloadsA (s : Store) : Loads files "a" s ↔ _ = s := loads_iff_of_read? ha (by decide)
  have hloadsB (s : Store) : Loads files "b" s ↔ _ = s := loads_iff_of_read? hb (by decide)
  have hmerge : mergeStreams [[event 7 2000, event 7 3000], [event 7 1000]] = merged := by
    have htime (m n : UInt64) (p q : UInt16) : (event m p).time ≤ (event n q).time := le_rfl
    rw [mergeStreams_eq, interleave_cons, interleave_cons, interleave_nil, mergeTwo_nil_right,
      mergeTwo_of_le (htime ..), mergeTwo_of_le (htime ..), mergeTwo_nil]
    rfl
  cases (run_merge "a" ["b", "a"]).2 files _ _ hparse with
  | notLoaded input hinput hnot =>
    simp only [List.mem_cons, List.not_mem_nil, or_false] at hinput
    rcases hinput with rfl | rfl
    · exact absurd ((hloadsB _).2 rfl) (hnot _)
    · exact absurd ((hloadsA _).2 rfl) (hnot _)
  | notCreated stores hstores hcreate =>
    exact absurd ⟨hplace (by decide), rfl⟩ (hcreate ["w", "a"])
  | written stores hstores p hcreate hexit houtput hback hnames =>
    cases hstores with
    | cons hB hrest =>
    cases hrest with
    | cons hA hnil =>
    cases hnil
    obtain rfl := (hloadsA _).1 hA
    obtain rfl := (hloadsB _).1 hB
    change o.files.read? "a" = some (Utf8.encode (Event.jsonLines (mergeStreams
      [[event 7 2000, event 7 3000], [event 7 1000]]))) at houtput
    change ∃ s, Loads o.files "a" s ∧
      s.events = mergeStreams [[event 7 2000, event 7 3000], [event 7 1000]] at hback
    rw [hmerge] at houtput hback
    have hp : ["w", "a"] = p := Except.ok.inj ((hplace (by decide)).symm.trans hcreate.1)
    have hother : files.resolve "b" ≠ .ok p := by
      rw [hplace (by decide), ← hp]
      simp
    exact ⟨hparse, ha, hb, hexit, houtput, (hnames "b" hother).trans hb, hback⟩

end Command
end FlowLog
