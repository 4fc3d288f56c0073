import AppSurface.Xml.Element

namespace AppSurface.Xml

open Element

/-- The tags of some elements, one after the other. An element without children has one tag or
two. -/
inductive Spells : List Element → List Event → Prop
  | nil : Spells [] []
  | empty {tag : Tag} {es events} : Spells es events →
      Spells (.node tag.name tag.attributes [] :: es) (.empty tag :: events)
  | nest {tag : Tag} {ds es inside events} : Spells ds inside → Spells es events →
      Spells (.node tag.name tag.attributes ds :: es) (.start tag :: (inside ++ .finish :: events))

/-- The events without asides, and without text where an element is open; `depth` elements are open
in front. -/
def tagsFrom : Nat → List Event → List Event
  | _, [] => []
  | depth, .start tag :: events => .start tag :: tagsFrom (depth + 1) events
  | depth, .empty tag :: events => .empty tag :: tagsFrom depth events
  | depth, .finish :: events => .finish :: tagsFrom (depth - 1) events
  | 0, .text :: events => .text :: tagsFrom 0 events
  | depth + 1, .text :: events => tagsFrom (depth + 1) events
  | depth, .aside :: events => tagsFrom depth events

/-- The tags behind which the reading stands at `p`: those of the root, and for each open element
its start tag and its finished children. -/
inductive Element.Progress.Reads : Progress → List Event → Prop
  | start : Reads .start []
  | root {e events} : Spells [e] events → Reads ⟨[], some e⟩ events
  | within {path root} {o : Open} {events inside} : Reads ⟨path, root⟩ events →
      Spells o.children.reverse inside →
      Reads ⟨o :: path, root⟩ (events ++ .start o.tag :: inside)

/-- What is wrong with a sequence of tags that a fault is reported for. -/
def ShapeFault.Shows : ShapeFault → List Event → Prop
  | .strayEnd, tags => ∃ before after root, tags = before ++ .finish :: after ∧
      Progress.Reads ⟨[], root⟩ before
  | .textOutside, tags => ∃ before after root, tags = before ++ .text :: after ∧
      Progress.Reads ⟨[], root⟩ before
  | .secondRoot, tags => ∃ first second after, tags = first ++ second ++ after ∧
      ∃ d e, Spells [d] first ∧ Spells [e] second
  | .unclosed name, tags => ∃ o path root, o.tag.name = name ∧
      Progress.Reads ⟨o :: path, root⟩ tags
  | .noRoot, tags => tags = []

variable {e d : Element} {es ds : List Element} {event : Event} {events more rest : List Event}
  {p q : Progress} {fault : ShapeFault} {document : String}

theorem Spells.append (first : Spells ds events) (second : Spells es more) :
    Spells (ds ++ es) (events ++ more) := by
  induction first with
  | nil => exact second
  | empty _ ih => exact .empty ih
  | @nest tag _ _ inside _ body _ _ ih =>
    have whole : Spells (.node tag.name tag.attributes _ :: _) (.start tag :: _) := .nest body ih
    simpa using whole

theorem foldlM_of_step (h : p.step event = .ok q) :
    (event :: events).foldlM Progress.step p = events.foldlM Progress.step q := by
  rw [List.foldlM_cons, h]
  rfl

theorem foldlM_of_fault (h : p.step event = .error fault) :
    (event :: events).foldlM Progress.step p = .error fault := by
  rw [List.foldlM_cons, h]
  rfl

/-- The tags of finished elements become children of the innermost open element. -/
theorem Spells.run (spells : Spells es events) (o : Open) (path : List Open)
    (root : Option Element) (rest : List Event) :
    (events ++ rest).foldlM Progress.step ⟨o :: path, root⟩ =
      rest.foldlM Progress.step ⟨⟨o.tag, es.reverse ++ o.children⟩ :: path, root⟩ := by
  induction spells generalizing o path rest with
  | nil => rfl
  | @empty tag es events _ ih =>
    have step : Progress.step ⟨o :: path, root⟩ (.empty tag) =
        .ok ⟨⟨o.tag, .node tag.name tag.attributes [] :: o.children⟩ :: path, root⟩ := rfl
    rw [List.cons_append, foldlM_of_step step, ih]
    simp
  | @nest tag ds es inside events _ _ ihInside ih =>
    have first : Progress.step ⟨o :: path, root⟩ (.start tag) =
        .ok ⟨⟨tag, []⟩ :: o :: path, root⟩ := rfl
    have last : Progress.step ⟨⟨tag, ds.reverse ++ []⟩ :: o :: path, root⟩ .finish =
        .ok ⟨⟨o.tag, .node tag.name tag.attributes ds :: o.children⟩ :: path, root⟩ := by
      simp [Progress.step, Progress.attach]
    rw [List.cons_append, foldlM_of_step first, List.append_assoc, ihInside, List.cons_append,
      foldlM_of_step last, ih]
    simp

/-- The tags of one element, read where none is open, make it the root. -/
theorem Spells.run_root (spells : Spells [e] events) (root : Option Element) (rest : List Event) :
    (events ++ rest).foldlM Progress.step ⟨[], root⟩ =
      (Progress.attach ⟨[], root⟩ e).bind fun q => rest.foldlM Progress.step q := by
  cases spells with
  | @empty tag _ events tail =>
    cases tail
    rw [List.cons_append, List.foldlM_cons]
    rfl
  | @nest tag ds _ inside events body tail =>
    cases tail
    have first : Progress.step ⟨[], root⟩ (.start tag) = .ok ⟨[⟨tag, []⟩], root⟩ := rfl
    rw [List.cons_append, foldlM_of_step first, List.append_assoc, body.run, List.cons_append,
      List.foldlM_cons]
    simp [Progress.step, bind]

/-- Reading the tags of `p` leads to `p`. -/
theorem Element.Progress.Reads.run (reads : p.Reads events) (rest : List Event) :
    (events ++ rest).foldlM Progress.step .start = rest.foldlM Progress.step p := by
  induction reads generalizing rest with
  | start => rfl
  | root spells => exact spells.run_root none rest
  | @within path root o events inside _ body ih =>
    have first : Progress.step ⟨path, root⟩ (.start o.tag) = .ok ⟨⟨o.tag, []⟩ :: path, root⟩ := rfl
    rw [List.append_assoc, ih, List.cons_append, foldlM_of_step first, body.run]
    simp

/-- A finished element adds its tags to those read, and as many elements are open as before. -/
theorem Element.Progress.Reads.attach (reads : p.Reads events) (spells : Spells [e] more)
    (h : p.attach e = .ok q) : q.Reads (events ++ more) := by
  cases reads with
  | start =>
    cases h
    exact .root spells
  | root => cases h
  | @within path root o events inside outer body =>
    cases h
    have grown : Spells (e :: o.children).reverse (inside ++ more) := by
      simpa using body.append spells
    simpa using Progress.Reads.within (o := ⟨o.tag, e :: o.children⟩) outer grown

theorem attach_path_length (h : p.attach e = .ok q) : q.path.length = p.path.length := by
  unfold Progress.attach at h
  split at h
  next he => cases h; simp [he]
  next he _ => cases h; simp [he]
  next => cases h

def Event.isTag : Event → Bool
  | .start _ | .empty _ | .finish => true
  | .text | .aside => false

@[simp] theorem Event.isTag_start (tag : Tag) : (Event.start tag).isTag = true := rfl

@[simp] theorem Event.isTag_empty (tag : Tag) : (Event.empty tag).isTag = true := rfl

@[simp] theorem Event.isTag_finish : Event.finish.isTag = true := rfl

@[simp] theorem Event.isTag_text : Event.text.isTag = false := rfl

@[simp] theorem Event.isTag_aside : Event.aside.isTag = false := rfl

/-- An event that is left out changes nothing. Behind one that is kept and accepted, which is a tag,
the depth is that of the path. -/
theorem tagsFrom_cons (p : Progress) (event : Event) (events : List Event) :
    p.step event = .ok p ∧
      tagsFrom p.path.length (event :: events) = tagsFrom p.path.length events ∨
    ∃ depth, tagsFrom p.path.length (event :: events) = event :: tagsFrom depth events ∧
      ∀ q, p.step event = .ok q → event.isTag = true ∧ q.path.length = depth := by
  cases event with
  | start tag =>
    refine .inr ⟨_, rfl, ?_⟩
    intro q h
    cases h
    exact ⟨rfl, rfl⟩
  | empty tag =>
    refine .inr ⟨_, rfl, ?_⟩
    intro q h
    exact ⟨rfl, attach_path_length h⟩
  | finish =>
    refine .inr ⟨_, rfl, ?_⟩
    intro q h
    obtain ⟨path, root⟩ := p
    cases path with
    | nil => cases h
    | cons o path =>
      have same : q.path.length = path.length := attach_path_length h
      exact ⟨rfl, by simp [same]⟩
  | text =>
    cases hp : p.path with
    | nil =>
      refine .inr ⟨0, rfl, ?_⟩
      intro q h
      simp [Progress.step, hp] at h
    | cons o path => exact .inl ⟨by simp [Progress.step, hp], rfl⟩
  | aside => exact .inl ⟨rfl, by cases p.path <;> rfl⟩

theorem Element.Progress.Reads.step (reads : p.Reads events) (ht : event.isTag = true)
    (h : p.step event = .ok q) : q.Reads (events ++ [event]) := by
  cases event with
  | start tag =>
    cases h
    exact .within (o := ⟨tag, []⟩) reads .nil
  | empty tag => exact reads.attach (.empty .nil) h
  | finish =>
    cases reads with
    | start => cases h
    | root => cases h
    | @within path root o events inside outer body =>
      have whole : Spells [.node o.tag.name o.tag.attributes o.children.reverse]
          (.start o.tag :: (inside ++ [.finish])) := .nest body .nil
      simpa using outer.attach whole h
  | text => cases ht
  | aside => cases ht

/-- A fault of a step shows in the tags read with the event that raised it. -/
theorem Element.Progress.Reads.shows (reads : p.Reads events) (h : p.step event = .error fault)
    (after : List Event) : fault.Shows (events ++ event :: after) := by
  cases event with
  | start tag => cases h
  | empty tag =>
    cases reads with
    | start => cases h
    | root first =>
      cases h
      exact ⟨_, [.empty tag], after, by simp, _, _, first, .empty .nil⟩
    | within => cases h
  | finish =>
    cases reads with
    | start =>
      cases h
      exact ⟨[], after, none, rfl, .start⟩
    | root first =>
      cases h
      exact ⟨_, after, some _, rfl, .root first⟩
    | @within path root o events inside outer body =>
      cases outer with
      | start => cases h
      | root first =>
        cases h
        exact ⟨_, .start o.tag :: (inside ++ [.finish]), after, by simp, _, _, first,
          .nest body .nil⟩
      | within => cases h
  | text =>
    cases reads with
    | start =>
      cases h
      exact ⟨[], after, none, rfl, .start⟩
    | root first =>
      cases h
      exact ⟨_, after, some _, rfl, .root first⟩
    | within => cases h
  | aside => cases h

/-- The events that are left out make no difference to the reading. -/
theorem foldlM_tagsFrom (p : Progress) (events : List Event) :
    (tagsFrom p.path.length events).foldlM Progress.step p = events.foldlM Progress.step p := by
  induction events generalizing p with
  | nil => rfl
  | cons event events ih =>
    rcases tagsFrom_cons p event events with ⟨same, he⟩ | ⟨depth, he, kept⟩
    · rw [he, foldlM_of_step same, ih]
    · rw [he]
      cases h : p.step event with
      | error fault => rw [foldlM_of_fault h, foldlM_of_fault h]
      | ok q =>
        obtain ⟨_, hq⟩ := kept q h
        rw [foldlM_of_step h, foldlM_of_step h, ← hq, ih]

theorem Element.Progress.Reads.of_run {before : List Event} (reads : p.Reads before)
    (h : events.foldlM Progress.step p = .ok q) :
    q.Reads (before ++ tagsFrom p.path.length events) := by
  induction events generalizing p before with
  | nil =>
    cases h
    simpa [tagsFrom] using reads
  | cons event events ih =>
    rcases tagsFrom_cons p event events with ⟨same, he⟩ | ⟨depth, he, kept⟩
    · rw [foldlM_of_step same] at h
      rw [he]
      exact ih reads h
    · cases hs : p.step event with
      | error fault =>
        rw [foldlM_of_fault hs] at h
        cases h
      | ok r =>
        obtain ⟨ht, hr⟩ := kept r hs
        rw [foldlM_of_step hs] at h
        have := ih (reads.step ht hs) h
        rw [he, ← hr]
        simpa using this

theorem Element.Progress.Reads.shows_of_run {before : List Event} (reads : p.Reads before)
    (h : events.foldlM Progress.step p = .error fault) :
    fault.Shows (before ++ tagsFrom p.path.length events) := by
  induction events generalizing p before with
  | nil => cases h
  | cons event events ih =>
    rcases tagsFrom_cons p event events with ⟨same, he⟩ | ⟨depth, he, kept⟩
    · rw [foldlM_of_step same] at h
      rw [he]
      exact ih reads h
    · rw [he]
      cases hs : p.step event with
      | error fault' =>
        rw [foldlM_of_fault hs] at h
        cases h
        exact reads.shows hs _
      | ok r =>
        obtain ⟨ht, hr⟩ := kept r hs
        rw [foldlM_of_step hs] at h
        have := ih (reads.step ht hs) h
        rw [← hr]
        simpa using this

/-- Behind the tags of `p` the reading goes on from `p`. -/
theorem foldlM_start_of_reads (reads : p.Reads events) (h : tagsFrom 0 more = events ++ rest) :
    more.foldlM Progress.step .start = rest.foldlM Progress.step p := by
  have same := foldlM_tagsFrom .start more
  change (tagsFrom 0 more).foldlM Progress.step .start = _ at same
  rw [← same, h, reads.run]

theorem foldlM_start_eq_ok_iff :
    events.foldlM Progress.step .start = .ok p ↔ p.Reads (tagsFrom 0 events) := by
  constructor
  · exact fun h => Progress.Reads.start.of_run h
  · exact fun reads => foldlM_start_of_reads reads (List.append_nil _).symm

theorem ofEvents_of_run (h : events.foldlM Progress.step .start = .ok p) :
    ofEvents events = p.finish := by
  rw [ofEvents, h]
  rfl

theorem ofEvents_of_fault (h : events.foldlM Progress.step .start = .error fault) :
    ofEvents events = .error fault := by
  rw [ofEvents, h]
  rfl

theorem finish_eq_ok_iff : p.finish = .ok e ↔ p = ⟨[], some e⟩ := by
  obtain ⟨path, root⟩ := p
  cases path <;> cases root <;> simp [Progress.finish]

/-- A sequence of events has an element tree exactly if it is written with the tags in it. -/
theorem ofEvents_eq_ok_iff : ofEvents events = .ok e ↔ Spells [e] (tagsFrom 0 events) := by
  constructor
  · intro h
    cases hr : events.foldlM Progress.step .start with
    | error fault =>
      rw [ofEvents_of_fault hr] at h
      cases h
    | ok p =>
      rw [ofEvents_of_run hr, finish_eq_ok_iff] at h
      subst h
      cases foldlM_start_eq_ok_iff.mp hr with
      | root spells => exact spells
  · intro spells
    rw [ofEvents_of_run (foldlM_start_eq_ok_iff.mpr (.root spells)), finish_eq_ok_iff]

/-- Every other sequence has a fault, the one that shows in its tags. -/
theorem ofEvents_eq_error_iff :
    ofEvents events = .error fault ↔ fault.Shows (tagsFrom 0 events) := by
  constructor
  · intro h
    cases hr : events.foldlM Progress.step .start with
    | error found =>
      rw [ofEvents_of_fault hr] at h
      cases h
      exact Progress.Reads.start.shows_of_run hr
    | ok p =>
      have reads := foldlM_start_eq_ok_iff.mp hr
      rw [ofEvents_of_run hr] at h
      obtain ⟨path, root⟩ := p
      cases path with
      | cons o path =>
        cases h
        exact ⟨o, path, root, rfl, reads⟩
      | nil =>
        cases root with
        | some e => cases h
        | none =>
          cases h
          generalize tagsFrom 0 events = tags at reads
          cases reads
          rfl
  · intro shows
    cases fault with
    | strayEnd =>
      obtain ⟨before, after, root, he, reads⟩ := shows
      exact ofEvents_of_fault (foldlM_start_of_reads reads he)
    | textOutside =>
      obtain ⟨before, after, root, he, reads⟩ := shows
      exact ofEvents_of_fault (foldlM_start_of_reads reads he)
    | secondRoot =>
      obtain ⟨first, second, after, he, d, e, hd, hs⟩ := shows
      rw [List.append_assoc] at he
      have run := foldlM_start_of_reads (.root hd) he
      rw [hs.run_root] at run
      exact ofEvents_of_fault run
    | unclosed name =>
      obtain ⟨o, path, root, rfl, reads⟩ := shows
      rw [ofEvents_of_run (foldlM_start_eq_ok_iff.mpr reads)]
      rfl
    | noRoot =>
      have reads : Progress.Reads .start (tagsFrom 0 events) := by
        rw [show tagsFrom 0 events = [] from shows]
        exact .start
      rw [ofEvents_of_run (foldlM_start_eq_ok_iff.mpr reads)]
      rfl

theorem parse_of_fault (h : (eventsOf document.toList).events.foldlM Progress.step .start =
    .error fault) : parse document = .error (.shape fault) := by
  simp only [parse]
  rw [h]

theorem parse_of_reading {reading : Fault}
    (h : (eventsOf document.toList).events.foldlM Progress.step .start = .ok p)
    (hr : (eventsOf document.toList).fault = some reading) :
    parse document = .error (.reading reading) := by
  simp only [parse]
  rw [h, hr]

theorem parse_of_read (h : (eventsOf document.toList).fault = none) :
    parse document =
      match ofEvents (eventsOf document.toList).events with
      | .error fault => .error (.shape fault)
      | .ok e => .ok e := by
  simp only [parse, ofEvents]
  rw [h]
  cases (eventsOf document.toList).events.foldlM Progress.step .start with
  | error fault => rfl
  | ok p => rfl

theorem parse_eq_ok_iff : parse document = .ok e ↔
    (eventsOf document.toList).fault = none ∧
      Spells [e] (tagsFrom 0 (eventsOf document.toList).events) := by
  cases hf : (eventsOf document.toList).fault with
  | none =>
    rw [parse_of_read hf, ← ofEvents_eq_ok_iff]
    cases ofEvents (eventsOf document.toList).events <;> simp
  | some reading =>
    cases hr : (eventsOf document.toList).events.foldlM Progress.step .start with
    | error fault => simp [parse_of_fault hr]
    | ok p => simp [parse_of_reading hr hf]

theorem parse_eq_reading_iff {reading : Fault} : parse document = .error (.reading reading) ↔
    (eventsOf document.toList).fault = some reading ∧
      ∃ p, Progress.Reads p (tagsFrom 0 (eventsOf document.toList).events) := by
  simp only [← foldlM_start_eq_ok_iff]
  cases hf : (eventsOf document.toList).fault with
  | none =>
    rw [parse_of_read hf]
    cases ofEvents (eventsOf document.toList).events <;> simp
  | some found =>
    cases hr : (eventsOf document.toList).events.foldlM Progress.step .start with
    | error fault => simp [parse_of_fault hr]
    | ok p => simp [parse_of_reading hr hf]

/-- An element tree is built exactly from the events that its tags make up once asides, and text
inside the element, are left out. All other events have the fault that shows in their tags. A
document has the tree of its events if the reader delivers them all, and the fault of the reader if
what was delivered is the beginning of a document. -/
theorem accepted_iff_spells :
    (∀ events e, ofEvents events = .ok e ↔ Spells [e] (tagsFrom 0 events)) ∧
    (∀ events fault, ofEvents events = .error fault ↔
      ShapeFault.Shows fault (tagsFrom 0 events)) ∧
    ∀ document, let read := eventsOf document.toList
      (∀ e, parse document = .ok e ↔
        read.fault = none ∧ Spells [e] (tagsFrom 0 read.events)) ∧
      ∀ fault, parse document = .error (.reading fault) ↔
        read.fault = some fault ∧ ∃ p, Progress.Reads p (tagsFrom 0 read.events) := by
  refine ⟨fun _ _ => ofEvents_eq_ok_iff, fun _ _ => ofEvents_eq_error_iff, ?_⟩
  intro document read
  exact ⟨fun _ => parse_eq_ok_iff, fun _ => parse_eq_reading_iff⟩

end AppSurface.Xml
