import AppSurface.Session

namespace AppSurface

variable {corpus : Corpus} {config : Config} {s : Session} {classes : List ClassUnit}
  {rs rs' : List Resource} {q : String} {read : PatternReader}

/-- Two sessions give the same answers, or refuse with the same fault, about classes, methods,
fields and sources, and find the same in searches. -/
structure Session.AnswersAlike (s s' : Session) : Prop where
  classNames : s.classNames = s'.classNames
  findClass : ∀ name, s.findClass name = s'.findClass name
  classSource : ∀ name, s.classSource name = s'.classSource name
  classDetails : ∀ name, s.classDetails name = s'.classDetails name
  methodsOfClass : ∀ name, s.methodsOfClass name = s'.methodsOfClass name
  fieldsOfClass : ∀ name, s.fieldsOfClass name = s'.fieldsOfClass name
  methodSource : ∀ name method, s.methodSource name method = s'.methodSource name method
  searchClasses : ∀ query, s.searchClasses query = s'.searchClasses query
  searchMethods : ∀ query, s.searchMethods query = s'.searchMethods query

/-- Two traces differ at most in the components that annotate their entry points. -/
structure Trace.Alike (t t' : Trace) : Prop where
  success : t.success = t'.success
  message : t.message = t'.message
  graph : t.graph = t'.graph
  targets : t.targets = t'.targets
  entries : t.entries.map (·.node) = t'.entries.map (·.node)
  suggestions : t.suggestions = t'.suggestions

/-- No resource is the manifest, or the one that is cannot be read. -/
def Corpus.NoReadableManifest (c : Corpus) : Prop :=
  c.manifest? = none ∨
    ∃ document fault, c.manifest? = some document ∧ Manifest.parse document = .error fault

namespace Session

theorem start_eq_ok_iff : start corpus config read = .ok s ↔
    ∃ d, CallDetector.ofConfirmers config.confirmers read = .ok d ∧
      ⟨config, corpus, .ofCorpus corpus, d⟩ = s := by
  unfold start
  cases CallDetector.ofConfirmers config.confirmers read <;> simp

theorem start_eq_error_iff {fault : Fault} : start corpus config read = .error fault ↔
    ∃ rule, CallDetector.ofConfirmers config.confirmers read = .error rule ∧
      .badPattern rule = fault := by
  unfold start
  cases CallDetector.ofConfirmers config.confirmers read <;> simp

theorem answersAlike_of_classes {s s' : Session} (h : s.corpus.classes = s'.corpus.classes) :
    s.AnswersAlike s' := by
  have found : s.findClass = s'.findClass := by
    funext name
    unfold findClass Corpus.findClass?
    rw [h]
  constructor
  · rw [classNames, classNames, h]
  · exact congrFun found
  · simp [classSource, found]
  · simp [classDetails, found]
  · simp [methodsOfClass, found]
  · simp [fieldsOfClass, found]
  · simp [methodSource, found]
  · simp [searchClasses, h]
  · simp [searchMethods, h]

end Session

namespace Tracer

variable {d : CallDetector} {depth limit : Nat} {cs cs' : List Component}

theorem map_node_entryPoints (t : Tracer) (g : CallGraph) (targets : List Nat) :
    (t.entryPoints g targets).map (·.node) =
      g.indices.filter fun i => !targets.contains i && (g.callers i).isEmpty := by
  rw [entryPoints, List.map_map]
  exact List.map_id _

/-- Neither the components nor the resources decide anything but annotations. -/
theorem traceFrom_alike (methods : List MethodRef) :
    ((⟨d, depth, limit, cs⟩ : Tracer).traceFrom ⟨classes, rs⟩ methods).Alike
      ((⟨d, depth, limit, cs'⟩ : Tracer).traceFrom ⟨classes, rs'⟩ methods) := by
  cases methods with
  | nil => exact ⟨rfl, rfl, rfl, rfl, rfl, rfl⟩
  | cons m ms =>
    refine ⟨rfl, rfl, rfl, rfl, ?_, rfl⟩
    exact (map_node_entryPoints _ _ _).trans (map_node_entryPoints _ _ _).symm

theorem trace_alike :
    ((⟨d, depth, limit, cs⟩ : Tracer).trace ⟨classes, rs⟩ q).Alike
      ((⟨d, depth, limit, cs'⟩ : Tracer).trace ⟨classes, rs'⟩ q) := by
  have same : Corpus.resolve ⟨classes, rs⟩ q limit = Corpus.resolve ⟨classes, rs'⟩ q limit := rfl
  unfold trace
  rw [same]
  cases Corpus.resolve ⟨classes, rs'⟩ q limit with
  | targets methods => exact traceFrom_alike methods
  | suggestions names => exact ⟨rfl, rfl, rfl, rfl, rfl, rfl⟩

theorem exported_eq_none {t : Tracer} (h : t.components = []) {g : CallGraph} {targets : List Nat}
    {e : EntryPoint} (he : e ∈ t.entryPoints g targets) : e.exported = none := by
  have never : t.componentFor = fun _ => none := by
    funext m
    rw [componentFor, h]
    rfl
  obtain ⟨i, _, rfl⟩ := List.mem_map.mp he
  rw [never]
  exact Option.bind_fun_none _

theorem trace_exported_eq_none {t : Tracer} (h : t.components = []) {c : Corpus} {e : EntryPoint}
    (he : e ∈ (t.trace c q).entries) : e.exported = none := by
  unfold trace at he
  split at he
  next methods _ =>
    cases methods with
    | nil => cases he
    | cons m ms => exact exported_eq_none h he
  next => cases he

end Tracer

theorem ManifestState.ofCorpus_unread (h : corpus.NoReadableManifest) (m : Manifest) :
    ManifestState.ofCorpus corpus ≠ .parsed m := by
  rcases h with missing | ⟨document, fault, found, refused⟩
  · simp [ofCorpus, missing]
  · simp [ofCorpus, found, refused]

theorem Session.components_of_unread (h : s.manifest = .ofCorpus corpus)
    (unread : corpus.NoReadableManifest) : s.tracer.components = [] := by
  have none : s.manifest? = .none := by
    unfold manifest?
    split
    next m hm => exact absurd (h.symm.trans hm) (ManifestState.ofCorpus_unread unread m)
    next => rfl
  rw [tracer, none]
  rfl

/-- Over the same classes and under the same configuration, whatever the resources, both sessions
open or neither does. They answer alike about classes, and their traces are alike for every query.
Where the manifest is missing or cannot be read, no entry point is annotated. -/
theorem resources_only_annotate (classes : List ClassUnit) (rs rs' : List Resource)
    (config : Config) (read : PatternReader) :
    (∀ fault, Session.start ⟨classes, rs⟩ config read = .error fault ↔
      Session.start ⟨classes, rs'⟩ config read = .error fault) ∧
    ∀ s s', Session.start ⟨classes, rs⟩ config read = .ok s →
      Session.start ⟨classes, rs'⟩ config read = .ok s' →
        s.AnswersAlike s' ∧ (∀ query, (s.trace query).Alike (s'.trace query)) ∧
        (Corpus.NoReadableManifest ⟨classes, rs⟩ →
          ∀ query, ∀ e ∈ (s.trace query).entries, e.exported = none) := by
  constructor
  · intro fault
    rw [Session.start_eq_error_iff, Session.start_eq_error_iff]
  · intro s s' hs hs'
    obtain ⟨d, hd, rfl⟩ := Session.start_eq_ok_iff.mp hs
    obtain ⟨d', hd', rfl⟩ := Session.start_eq_ok_iff.mp hs'
    obtain rfl := Except.ok.inj (hd.symm.trans hd')
    refine ⟨Session.answersAlike_of_classes rfl, fun _ => Tracer.trace_alike, ?_⟩
    intro unread query e he
    exact Tracer.trace_exported_eq_none (Session.components_of_unread rfl unread) he

/-- An activity whose method calls `t`. -/
def activityClasses : List ClassUnit :=
  [⟨"app.A", "A", "app", ["m"], [], "final m(){t()}"⟩, ⟨"T", "T", "", ["t"], [], "final t(){}"⟩]

/-- A manifest that declares the activity, and one that breaks off. -/
def activityManifest : Resource :=
  ⟨"AndroidManifest.xml",
    "<manifest><activity android:name=\"app.A\" android:exported=\"true\"/></manifest>"⟩

def brokenManifest : Resource := ⟨"AndroidManifest.xml", "<manifest>"⟩

def plainConfig : Config := { Config.default with confirmers := [] }

/-- The session over the classes and one resource. -/
def activitySession (r : Resource) : Session :=
  ⟨plainConfig, ⟨activityClasses, [r]⟩, .ofCorpus ⟨activityClasses, [r]⟩, ⟨[]⟩⟩

theorem brokenManifest_unread : Corpus.NoReadableManifest ⟨activityClasses, [brokenManifest]⟩ := by
  refine .inr ⟨"<manifest>", ?_⟩
  have refused : (Manifest.parse "<manifest>").isOk = false := by decide +kernel
  cases h : Manifest.parse "<manifest>" with
  | ok m =>
    rw [h] at refused
    cases refused
  | error fault => exact ⟨fault, by decide, rfl⟩

theorem activity_only_annotated :
    let s := activitySession brokenManifest
    let s' := activitySession activityManifest
    Session.start ⟨activityClasses, [brokenManifest]⟩ plainConfig = .ok s ∧
      Session.start ⟨activityClasses, [activityManifest]⟩ plainConfig = .ok s' ∧
      Corpus.NoReadableManifest ⟨activityClasses, [brokenManifest]⟩ ∧
      s.AnswersAlike s' ∧ (s.trace "t").Alike (s'.trace "t") ∧
      (∀ e ∈ (s.trace "t").entries, e.exported = none) ∧
      (s'.trace "t").entries = [⟨1, some ⟨.activity, "app.A", "", true, []⟩⟩] := by
  intro s s'
  have opens : Session.start ⟨activityClasses, [brokenManifest]⟩ plainConfig = .ok s := rfl
  have opens' : Session.start ⟨activityClasses, [activityManifest]⟩ plainConfig = .ok s' := rfl
  obtain ⟨alike, traces, bare⟩ := (resources_only_annotate activityClasses [brokenManifest]
    [activityManifest] plainConfig Pattern.ofText?).2 s s' opens opens'
  exact ⟨opens, opens', brokenManifest_unread, alike, traces "t", bare brokenManifest_unread "t",
    by decide +kernel⟩

end AppSurface
