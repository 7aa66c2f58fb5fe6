/-
Mapping one inode after the other, with whatever sources and listeners the
inodes come with. `Course` lists the ways in which the mapping of one inode
can go: by blocks without a request for extents, by blocks behind a refused
first request, or by extents, with the data first and the attributes behind
it. Each of them names the records that the listener was handed and where
they came from, so no inode is mapped by both, also where a request fails
behind answered ones (`Mapper.course`).

Over many inodes a mapper remembers one thing. It is set where the first
request for a regular file is refused, and never cleared (`foldl_refused`).
-/
import DiskAtlas.Proofs.Mapping.Listening

namespace DiskAtlas.Mapping

-- ================================================================ calls

/-- An inode to map, with what is behind it and who listens. -/
structure MapCall : Type 1 where
  {σ τ : Type}
  target : MapTarget σ
  source : σ
  take : Bool → RawExtent → τ → Except Error τ
  listener : τ

/-- How a mapping ends: with the error that stopped it, or with what it
produced. -/
def ended (stopped : Option Error) (outcome : MapOutcome) :
    Except Error MapOutcome :=
  match stopped with
  | some e => .error e
  | none => .ok outcome

/-- The counters count what was taken only where nothing stopped it. -/
theorem ended_eq {stopped : Option Error} {taken length : Nat}
    (outcome : Nat → MapOutcome) (h : stopped = none → taken = length) :
    ended stopped (outcome taken) = ended stopped (outcome length) := by
  cases stopped with
  | some e => rfl
  | none => rw [h rfl]

abbrev MapCall.kind (c : MapCall) : InodeKind := c.target.inode.kind

namespace Mapper

variable {σ τ : Type} (m : Mapper) (c : MapCall)

def run : MapRun c.τ :=
  (m.map c.target c.take c.source c.listener).1

/-- The mapper behind a call. -/
def after : Mapper :=
  (m.map c.target c.take c.source c.listener).2

/-- The request that a walk over a file begins with. -/
def firstRequest (extra : UInt32) : FileRequest :=
  ⟨0, maxWord, m.requestFlags ||| extra⟩

/-- What the file system says to the first request for a file. -/
def firstAnswer (file : FileSource σ) (extra : UInt32) (s : σ) :
    Except Error (FileBuffer (max m.settings.fileBatch 1)) × σ :=
  file.answer (FileBuffer.prepare _ (m.firstRequest extra)) s

/-- The first request is answered with an error that says the request is
not known. -/
def Refuses (file : FileSource σ) (extra : UInt32) (s : σ) : Prop :=
  ∃ e, (m.firstAnswer file extra s).1 = .error e ∧ e.isUnsupported = true

/-- The first request for the data of an inode is made, and refused. -/
def DataRefused : Prop :=
  m.skipsRequests c.kind = false ∧ m.Refuses c.target.file 0 c.source

/-- Asking for the data of an inode. -/
def dataWalk : Trace FileRequest RawExtent × c.σ :=
  m.readFile c.target 0 c.source

/-- Asking for the attributes of an inode, behind its data. -/
def xattrWalk : Trace FileRequest RawExtent × c.σ :=
  m.readFile c.target FileRequest.xattrFlag (m.dataWalk c).2

/-- What the blocks of an inode say. -/
def blockItems (s : c.σ) : List (Except Error RawExtent) :=
  let reader : BlockReader :=
    { fileSize := c.target.inode.size.getD 0
      mostBlocks := m.settings.maxRunBlocks }
  match (reader.run c.target.blocks s).1 with
  | .error e => [.error e]
  | .ok (_, trace) => trace.items

/-- How the mapping of an inode went, with the records of its data and of
its attributes that were handed over. -/
inductive Course : MapRun c.τ → List RawExtent → List RawExtent → Prop where
  /-- Nothing is asked for, and the blocks are read. -/
  | unasked {asked : List UInt64} {data : List RawExtent} {listener : c.τ}
      {stopped : Option Error}
      (skips : m.skipsRequests c.kind = true)
      (reads : Reads (c.take false) (m.blockItems c c.source) c.listener
        data listener stopped) :
      Course ⟨ended stopped ⟨data.length, 0, true⟩, [], asked, listener⟩
        data []
  /-- One request is refused, and the blocks are read. -/
  | fallen {asked : List UInt64} {data : List RawExtent} {listener : c.τ}
      {stopped : Option Error}
      (refused : m.DataRefused c)
      (reads : Reads (c.take false)
        (m.blockItems c (m.firstAnswer c.target.file 0 c.source).2)
        c.listener data listener stopped) :
      Course ⟨ended stopped ⟨data.length, 0, true⟩, [m.firstRequest 0],
        asked, listener⟩ data []
  /-- Asking for the data ends with an error. -/
  | cut {requests : List FileRequest} {data : List RawExtent}
      {listener : c.τ} {e : Error}
      (asks : m.skipsRequests c.kind = false)
      (answered : ¬ m.Refuses c.target.file 0 c.source)
      (reads : Reads (c.take false) (join (m.dataWalk c).1).items c.listener
        data listener (some e))
      (made : m.firstRequest 0 :: requests <+: (m.dataWalk c).1.requests) :
      Course ⟨.error e, m.firstRequest 0 :: requests, [], listener⟩ data []
  /-- The data is read, and asking for attributes is refused. -/
  | bare {requests : List FileRequest} {data : List RawExtent}
      {listener : c.τ}
      (asks : m.skipsRequests c.kind = false)
      (answered : ¬ m.Refuses c.target.file 0 c.source)
      (reads : Reads (c.take false) (join (m.dataWalk c).1).items c.listener
        data listener none)
      (made : m.firstRequest 0 :: requests <+: (m.dataWalk c).1.requests)
      (refused : m.Refuses c.target.file FileRequest.xattrFlag
        (m.dataWalk c).2) :
      Course ⟨.ok ⟨data.length, 0, false⟩,
        (m.firstRequest 0 :: requests)
          ++ [m.firstRequest FileRequest.xattrFlag], [], listener⟩ data []
  /-- The data is read, and the attributes behind it. -/
  | whole {requests more : List FileRequest} {data attrs : List RawExtent}
      {between listener : c.τ} {stopped : Option Error}
      (asks : m.skipsRequests c.kind = false)
      (answered : ¬ m.Refuses c.target.file 0 c.source)
      (reads : Reads (c.take false) (join (m.dataWalk c).1).items c.listener
        data between none)
      (made : m.firstRequest 0 :: requests <+: (m.dataWalk c).1.requests)
      (answered' : ¬ m.Refuses c.target.file FileRequest.xattrFlag
        (m.dataWalk c).2)
      (reads' : Reads (c.take true) (join (m.xattrWalk c).1).items between
        attrs listener stopped)
      (made' : m.firstRequest FileRequest.xattrFlag :: more
        <+: (m.xattrWalk c).1.requests) :
      Course ⟨ended stopped ⟨data.length, attrs.length, false⟩,
        (m.firstRequest 0 :: requests)
          ++ m.firstRequest FileRequest.xattrFlag :: more, [], listener⟩
        data attrs

-- =============================================================== asking

section Asking

variable (target : MapTarget σ) (extra : UInt32) (s : σ)

/-- A walk from the start of a file asks for all of it. -/
theorem firstRequest_eq :
    (⟨0, maxWord - 0, m.requestFlags ||| extra⟩ : FileRequest)
      = m.firstRequest extra := by
  rw [UInt64.sub_zero, firstRequest]

theorem zero_lt_maxWord : (0 : UInt64) < maxWord := by decide

theorem readFile_eq :
    m.readFile target extra s
      = walkFile target.file (max m.settings.fileBatch 1)
        (m.requestFlags ||| extra) 0 maxWord s := rfl

/-- A walk whose first request fails is that request and its failure. -/
theorem readFile_failed {e : Error}
    (h : (m.firstAnswer target.file extra s).1 = .error e) :
    m.readFile target extra s
      = ([.ask (m.firstRequest extra), .fail e],
        (m.firstAnswer target.file extra s).2) := by
  rw [readFile_eq, walkFile_error target.file _ _ s zero_lt_maxWord
    (Prod.ext (by rwa [firstRequest_eq]) rfl), firstRequest_eq]
  rfl

/-- A walk whose first request is answered is not refused. -/
theorem refusal?_readFile
    {buffer : FileBuffer (max m.settings.fileBatch 1)}
    (h : (m.firstAnswer target.file extra s).1 = .ok buffer) :
    (m.readFile target extra s).1.refusal? = none := by
  rw [readFile_eq]
  exact refusal?_walkFile_ok target.file _ _ s zero_lt_maxWord
    (Prod.ext (by rwa [firstRequest_eq]) rfl)

/-- A walk over a file begins with its first request, whatever the answer. -/
theorem readFile_asks :
    ∃ more, (m.readFile target extra s).1
      = .ask (m.firstRequest extra) :: more := by
  rw [readFile_eq, ← firstRequest_eq]
  exact walkFile_asks target.file _ _ s zero_lt_maxWord

/-- Every walk asks with flags of its own. -/
theorem flags_of_readFile {r : FileRequest}
    (h : r ∈ (m.readFile target extra s).1.requests) :
    r.flags = m.requestFlags ||| extra :=
  flags_of_mem_requests target.file _ _ s h

theorem not_refuses_of_ok
    {buffer : FileBuffer (max m.settings.fileBatch 1)}
    (h : (m.firstAnswer target.file extra s).1 = .ok buffer) :
    ¬ m.Refuses target.file extra s := by
  rintro ⟨e, hanswer, -⟩
  rw [h] at hanswer
  cases hanswer

/-- A failure that says anything else is no refusal. -/
theorem not_refuses_of_known {e : Error}
    (h : (m.firstAnswer target.file extra s).1 = .error e)
    (hknown : e.isUnsupported = false) :
    ¬ m.Refuses target.file extra s := by
  rintro ⟨e', hanswer, hunknown⟩
  obtain rfl := Except.error.inj (h.symm.trans hanswer)
  rw [hknown] at hunknown
  cases hunknown

/-- Listening to a walk over a file begins with its first request. -/
theorem listen_readFile (take : RawExtent → τ → Except Error τ)
    (before : τ) :
    let trace := (m.readFile target extra s).1
    let heard := (join trace).listen take before
    ∃ records requests,
      Reads take (join trace).items before records heard.state
        heard.stopped ∧
      heard.requests = m.firstRequest extra :: requests ∧
      m.firstRequest extra :: requests <+: trace.requests ∧
      (heard.stopped = none → heard.taken = records.length) := by
  intro trace heard
  obtain ⟨records, hreads, hmade, htaken⟩ :=
    Trace.listen_reads take (join trace) before
  obtain ⟨more, htrace⟩ := m.readFile_asks target extra s
  have hfirst : heard.requests = m.firstRequest extra
      :: ((joinFrom none more).listen take before).requests := by
    show ((join (m.readFile target extra s).1).listen take before).requests
      = _
    rw [htrace]
    rfl
  refine ⟨records, _, hreads, hfirst, ?_, htaken⟩
  rw [requests_join] at hmade
  rw [← hfirst]
  exact hmade

end Asking

/-- The flags of a data request leave the attribute bit free, so it alone tells
the two kinds of request apart. -/
theorem requestFlags_and_xattrFlag :
    m.requestFlags &&& FileRequest.xattrFlag = 0 := by
  unfold requestFlags
  split <;> decide

theorem or_xattrFlag_and_xattrFlag :
    (m.requestFlags ||| FileRequest.xattrFlag) &&& FileRequest.xattrFlag
      ≠ 0 := by
  unfold requestFlags
  split <;> decide

-- ============================================================ one inode

/-- Mapping by blocks hands over what the blocks say. -/
theorem mapBlocks_reads (requests : List FileRequest) (s : c.σ) :
    ∃ asked data listener stopped,
      m.mapBlocks c.target c.take requests s c.listener
        = ⟨ended stopped ⟨data.length, 0, true⟩, requests, asked, listener⟩ ∧
      Reads (c.take false) (m.blockItems c s) c.listener data listener
        stopped := by
  unfold mapBlocks blockItems
  dsimp only
  generalize (BlockReader.run _ c.target.blocks s).1 = answer
  cases answer with
  | error e =>
    exact ⟨[], [], c.listener, some e, rfl, .failed e [] c.listener⟩
  | ok read =>
    obtain ⟨size, trace⟩ := read
    obtain ⟨data, hreads, -, htaken⟩ :=
      Trace.listen_reads (c.take false) trace c.listener
    refine ⟨(trace.listen (c.take false) c.listener).requests, data, _, _,
      ?_, hreads⟩
    rw [← ended_eq (⟨·, 0, true⟩) htaken]
    rfl

/-- Mapping the attributes either is refused or hands over what asking for
them gives; the data stands as it was. -/
theorem mapXattrs_reads (data : Trace.Heard FileRequest c.τ) :
    (m.Refuses c.target.file FileRequest.xattrFlag (m.dataWalk c).2 ∧
      m.mapXattrs c.target c.take data (m.dataWalk c).2
        = ⟨.ok ⟨data.taken, 0, false⟩,
          data.requests ++ [m.firstRequest FileRequest.xattrFlag], [],
          data.state⟩) ∨
    ¬ m.Refuses c.target.file FileRequest.xattrFlag (m.dataWalk c).2 ∧
    ∃ more attrs listener stopped,
      m.mapXattrs c.target c.take data (m.dataWalk c).2
        = ⟨ended stopped ⟨data.taken, attrs.length, false⟩,
          data.requests ++ m.firstRequest FileRequest.xattrFlag :: more, [],
          listener⟩ ∧
      Reads (c.take true) (join (m.xattrWalk c).1).items data.state attrs
        listener stopped ∧
      m.firstRequest FileRequest.xattrFlag :: more
        <+: (m.xattrWalk c).1.requests := by
  unfold mapXattrs xattrWalk
  cases hanswer : (m.firstAnswer c.target.file FileRequest.xattrFlag
      (m.dataWalk c).2).1 with
  | error e =>
    rw [m.readFile_failed c.target _ _ hanswer]
    cases hunknown : e.isUnsupported with
    -- a refusal here says nothing about the data, which was taken before
    | true =>
      refine .inl ⟨⟨e, hanswer, hunknown⟩, ?_⟩
      simp only [Trace.refusal?, hunknown]
      rfl
    | false =>
      refine .inr ⟨m.not_refuses_of_known c.target _ _ hanswer hunknown, [],
        [], data.state, some e, ?_, .failed e [] data.state,
        List.prefix_rfl⟩
      simp only [Trace.refusal?, hunknown]
      rfl
  | ok buffer =>
    obtain ⟨attrs, more, hreads, hrequests, hmade, htaken⟩ :=
      m.listen_readFile c.target FileRequest.xattrFlag (m.dataWalk c).2
        (c.take true) data.state
    refine .inr ⟨m.not_refuses_of_ok c.target _ _ hanswer, more, attrs, _, _,
      ?_, hreads, hmade⟩
    simp only [m.refusal?_readFile c.target _ _ hanswer]
    rw [← hrequests, ← ended_eq (⟨data.taken, ·, false⟩) htaken]
    rfl

section Arms

variable {c}

/-- A mapper that skips requests reads the blocks and remembers nothing new. -/
theorem map_skipping (h : m.skipsRequests c.kind = true) :
    m.map c.target c.take c.source c.listener
      = (m.mapBlocks c.target c.take [] c.source c.listener, m) :=
  if_pos h

/-- Where the first request is refused the blocks are read, from the source as
the request has left it, and a regular file is remembered. -/
theorem map_refused (h : m.DataRefused c) :
    m.map c.target c.take c.source c.listener
      = (m.mapBlocks c.target c.take [m.firstRequest 0]
          (m.firstAnswer c.target.file 0 c.source).2 c.listener,
        m.noteRefusal c.kind) := by
  obtain ⟨hasks, e, hanswer, hunknown⟩ := h
  rw [map, if_neg (Bool.eq_false_iff.1 hasks),
    m.readFile_failed c.target _ _ hanswer]
  simp only [Trace.refusal?, hunknown]
  rfl

/-- An error that does not say the request is unknown ends the mapping; no
blocks are read to make up for it. -/
theorem map_failed {e : Error} (hasks : m.skipsRequests c.kind = false)
    (hanswer : (m.firstAnswer c.target.file 0 c.source).1 = .error e)
    (hknown : e.isUnsupported = false) :
    m.map c.target c.take c.source c.listener
      = (⟨.error e, [m.firstRequest 0], [], c.listener⟩, m) := by
  rw [map, if_neg (Bool.eq_false_iff.1 hasks),
    m.readFile_failed c.target _ _ hanswer]
  simp only [Trace.refusal?, hknown]
  rfl

/-- Behind an answer the data is listened to, and the attributes are asked for
only where nothing has stopped that. -/
theorem map_answered
    {buffer : FileBuffer (max m.settings.fileBatch 1)}
    (hasks : m.skipsRequests c.kind = false)
    (hanswer : (m.firstAnswer c.target.file 0 c.source).1 = .ok buffer) :
    let data := (join (m.dataWalk c).1).listen (c.take false) c.listener
    m.map c.target c.take c.source c.listener
      = (match data.stopped with
        | some e => ⟨.error e, data.requests, [], data.state⟩
        | none => m.mapXattrs c.target c.take data (m.dataWalk c).2, m) := by
  intro data
  rw [map, if_neg (Bool.eq_false_iff.1 hasks)]
  simp only [m.refusal?_readFile c.target _ _ hanswer]
  show (match data.stopped with
    | some e => ((⟨.error e, data.requests, [], data.state⟩ : MapRun c.τ), m)
    | none => (m.mapXattrs c.target c.take data (m.dataWalk c).2, m)) = _
  cases data.stopped <;> rfl

end Arms

/-- Asking for the data of an inode that the file system does not refuse
goes a course of its own. -/
theorem course_asking (hasks : m.skipsRequests c.kind = false)
    {buffer : FileBuffer (max m.settings.fileBatch 1)}
    (hanswer : (m.firstAnswer c.target.file 0 c.source).1 = .ok buffer) :
    ∃ data attrs, m.Course c (m.run c) data attrs := by
  have hanswered := m.not_refuses_of_ok c.target _ _ hanswer
  obtain ⟨data, requests, hreads, hrequests, hmade, htaken⟩ :=
    m.listen_readFile c.target 0 c.source (c.take false) c.listener
  rw [run, m.map_answered hasks hanswer, dataWalk]
  generalize (join _).listen (c.take false) c.listener = heard
    at hreads hrequests htaken
  cases hstopped : heard.stopped with
  | some e =>
    rw [hstopped] at hreads
    dsimp only
    rw [hrequests]
    exact ⟨data, [], .cut hasks hanswered hreads hmade⟩
  | none =>
    rw [hstopped] at hreads
    dsimp only
    obtain ⟨hrefused, hrun⟩ | ⟨hanswered', more, attrs, listener, stopped,
      hrun, hreads', hmade'⟩ := m.mapXattrs_reads c heard
    · rw [dataWalk] at hrun
      rw [hrun, hrequests, htaken hstopped]
      exact ⟨data, [], .bare hasks hanswered hreads hmade hrefused⟩
    · rw [dataWalk] at hrun
      rw [hrun, hrequests, htaken hstopped]
      exact ⟨data, attrs,
        .whole hasks hanswered hreads hmade hanswered' hreads' hmade'⟩

/-- Whatever the sources of an inode and its listener do, the mapping goes
one of its courses. -/
theorem course : ∃ data attrs, m.Course c (m.run c) data attrs := by
  cases hasks : m.skipsRequests c.kind with
  | true =>
    obtain ⟨asked, data, listener, stopped, hrun, hreads⟩ :=
      m.mapBlocks_reads c [] c.source
    rw [run, m.map_skipping hasks, hrun]
    exact ⟨data, [], .unasked hasks hreads⟩
  | false =>
    cases hanswer : (m.firstAnswer c.target.file 0 c.source).1 with
    | ok buffer => exact m.course_asking c hasks hanswer
    | error e =>
      cases hunknown : e.isUnsupported with
      | true =>
        have hrefused : m.DataRefused c := ⟨hasks, e, hanswer, hunknown⟩
        obtain ⟨asked, data, listener, stopped, hrun, hreads⟩ :=
          m.mapBlocks_reads c [m.firstRequest 0]
            (m.firstAnswer c.target.file 0 c.source).2
        rw [run, m.map_refused hrefused, hrun]
        exact ⟨data, [], .fallen hrefused hreads⟩
      | false =>
        -- the first request failed for another reason, so the blocks are not
        -- read
        have hwalk := m.readFile_failed c.target _ _ hanswer
        have hreads : Reads (c.take false) (join (m.dataWalk c).1).items
            c.listener [] c.listener (some e) := by
          rw [dataWalk, hwalk]
          exact .failed e [] c.listener
        have hmade : [m.firstRequest 0] <+: (m.dataWalk c).1.requests := by
          rw [dataWalk, hwalk]
          exact List.prefix_rfl
        have hanswered :=
          m.not_refuses_of_known c.target _ _ hanswer hunknown
        rw [run, m.map_failed hasks hanswer hunknown]
        exact ⟨[], [], .cut hasks hanswered hreads hmade⟩

variable {m c}

/-- What a course asks for: nothing where requests are skipped, and the
first request for the data otherwise. -/
theorem Course.requests_skipping {r : MapRun c.τ}
    {data attrs : List RawExtent} (h : m.Course c r data attrs)
    (hskips : m.skipsRequests c.kind = true) : r.requests = [] := by
  cases h with
  | unasked => rfl
  | fallen refused => exact absurd (refused.1.symm.trans hskips) nofun
  | cut asks => exact absurd (asks.symm.trans hskips) nofun
  | bare asks => exact absurd (asks.symm.trans hskips) nofun
  | whole asks => exact absurd (asks.symm.trans hskips) nofun

/-- In every course that asks at all, the first request for data comes first.
-/
theorem Course.requests_asking {r : MapRun c.τ}
    {data attrs : List RawExtent} (h : m.Course c r data attrs)
    (hasks : m.skipsRequests c.kind = false) :
    r.requests.head? = some (m.firstRequest 0) := by
  cases h with
  | unasked skips => exact absurd (hasks.symm.trans skips) nofun
  | fallen => rfl
  | cut => rfl
  | bare => rfl
  | whole => rfl

/-- The requests of a course: first those for the data, then those for the
attributes, and there are attributes only behind such a request. -/
theorem Course.requests_split {r : MapRun c.τ}
    {data attrs : List RawExtent} (h : m.Course c r data attrs) :
    ∃ first second, r.requests = first ++ second ∧
      (∀ q ∈ first, q.flags &&& FileRequest.xattrFlag = 0) ∧
      (∀ q ∈ second, q.flags &&& FileRequest.xattrFlag ≠ 0) ∧
      (attrs ≠ [] → second ≠ []) := by
  -- the attribute bit is in the requests behind the data and in no other
  have hplain : ∀ {requests : List FileRequest},
      m.firstRequest 0 :: requests <+: (m.dataWalk c).1.requests →
      ∀ q ∈ m.firstRequest 0 :: requests,
        q.flags &&& FileRequest.xattrFlag = 0 := fun hmade q hq => by
    rw [m.flags_of_readFile c.target 0 c.source (hmade.subset hq),
      UInt32.or_zero, requestFlags_and_xattrFlag]
  have hfirst : (m.firstRequest 0).flags &&& FileRequest.xattrFlag = 0 := by
    rw [firstRequest, UInt32.or_zero, requestFlags_and_xattrFlag]
  cases h with
  | unasked => exact ⟨[], [], rfl, nofun, nofun, absurd rfl⟩
  | fallen =>
    refine ⟨_, [], (List.append_nil _).symm, ?_, nofun, absurd rfl⟩
    intro q hq
    rw [List.mem_singleton.1 hq, hfirst]
  | cut asks answered reads made =>
    exact ⟨_, [], (List.append_nil _).symm, hplain made, nofun, absurd rfl⟩
  | bare asks answered reads made refused =>
    refine ⟨_, _, rfl, hplain made, ?_, absurd rfl⟩
    intro q hq
    rw [List.mem_singleton.1 hq]
    exact m.or_xattrFlag_and_xattrFlag
  | whole asks answered reads made answered' reads' made' =>
    refine ⟨_, _, rfl, hplain made, ?_, fun _ => List.cons_ne_nil _ _⟩
    intro q hq
    rw [m.flags_of_readFile c.target _ _ (made'.subset hq)]
    exact m.or_xattrFlag_and_xattrFlag

-- =========================================================== remembering

variable (m c)

/-- Only a refusal is noted, and only it changes the mapper. -/
theorem after_eq (h : m.DataRefused c) :
    m.after c = m.noteRefusal c.kind := by
  rw [after, m.map_refused h]

/-- Only a refused first request for data changes a mapper. -/
theorem after_eq_self (h : ¬ m.DataRefused c) : m.after c = m := by
  cases hasks : m.skipsRequests c.kind with
  | true => rw [after, m.map_skipping hasks]
  | false =>
    cases hanswer : (m.firstAnswer c.target.file 0 c.source).1 with
    | error e =>
      cases hunknown : e.isUnsupported with
      | true => exact absurd ⟨hasks, e, hanswer, hunknown⟩ h
      | false => rw [after, m.map_failed hasks hanswer hunknown]
    | ok buffer =>
      rw [after, m.map_answered hasks hanswer]

theorem after_settings : (m.after c).settings = m.settings := by
  by_cases h : m.DataRefused c
  · rw [m.after_eq c h]
    rfl
  · rw [m.after_eq_self c h]

/-- A mapper remembers a refusal that it knew of, or that this call met on a
regular file. -/
theorem after_refused :
    (m.after c).refused = true ↔
      m.refused = true ∨ c.kind = .file ∧ m.DataRefused c := by
  by_cases h : m.DataRefused c
  · rw [m.after_eq c h, noteRefusal]
    simp [h]
  · rw [m.after_eq_self c h]
    simp [h]

theorem foldl_settings (calls : List MapCall) :
    (calls.foldl after m).settings = m.settings := by
  induction calls generalizing m with
  | nil => rfl
  | cons c calls ih => exact (ih (m.after c)).trans (m.after_settings c)

/-- After some calls a mapper remembers a refusal if it did before them, or
if one of the calls was for a regular file and was refused. -/
theorem foldl_refused (calls : List MapCall) :
    (calls.foldl after m).refused = true ↔
      m.refused = true ∨ ∃ front c back, calls = front ++ c :: back ∧
        c.kind = .file ∧ (front.foldl after m).DataRefused c := by
  induction calls generalizing m with
  | nil => simp
  | cons c calls ih =>
    rw [List.foldl_cons, ih, after_refused, or_assoc]
    refine or_congr_right ⟨?_, ?_⟩
    · rintro (⟨hfile, hrefused⟩ | ⟨front, d, back, rfl, hfile, hrefused⟩)
      · exact ⟨[], c, calls, rfl, hfile, hrefused⟩
      · exact ⟨c :: front, d, back, rfl, hfile, hrefused⟩
    · rintro ⟨front, d, back, heq, hfile, hrefused⟩
      cases front with
      | nil =>
        obtain ⟨rfl, -⟩ := List.cons.inj heq
        exact .inl ⟨hfile, hrefused⟩
      | cons c' front =>
        obtain ⟨rfl, rfl⟩ := List.cons.inj heq
        exact .inr ⟨front, d, back, rfl, hfile, hrefused⟩

/-- Requests are skipped on demand, or for regular files once one was refused.
Directories and the like are asked every time. -/
theorem skipsRequests_iff (kind : InodeKind) :
    m.skipsRequests kind = true ↔
      m.settings.forceBlocks = true ∨ m.refused = true ∧ kind = .file := by
  simp [skipsRequests]

/-- A mapper that is used for one inode after the other remembers exactly
the refusal of a regular file, for good. It asks for nothing if blocks are
forced, or for a regular file once it remembers; for any other inode it
asks for the data first. Every mapping goes one of its courses, and asks
for attributes with requests of their own, behind those for the data. -/
theorem calls_fall_back (settings : ScanSettings) (earlier : List MapCall)
    (c : MapCall) :
    let m := earlier.foldl after { settings }
    m.settings = settings ∧
    (m.refused = true ↔ settings.forceBlocks = false ∧
      ∃ front d back, earlier = front ++ d :: back ∧ d.kind = .file ∧
        (front.foldl after { settings }).DataRefused d) ∧
    (m.refused = true → (m.after c).refused = true) ∧
    (settings.forceBlocks = true ∨ m.refused = true ∧ c.kind = .file →
      (m.run c).requests = []) ∧
    (settings.forceBlocks = false → c.kind ≠ .file →
      (m.run c).requests.head? = some (m.firstRequest 0)) ∧
    ∃ data attrs, m.Course c (m.run c) data attrs ∧
      ∃ first second, (m.run c).requests = first ++ second ∧
        (∀ q ∈ first, q.flags &&& FileRequest.xattrFlag = 0) ∧
        (∀ q ∈ second, q.flags &&& FileRequest.xattrFlag ≠ 0) ∧
        (attrs ≠ [] → second ≠ []) := by
  intro m
  have hsettings : m.settings = settings := foldl_settings _ earlier
  have hskips : m.skipsRequests c.kind = true ↔
      settings.forceBlocks = true ∨ m.refused = true ∧ c.kind = .file := by
    rw [skipsRequests_iff, hsettings]
  obtain ⟨data, attrs, hcourse⟩ := m.course c
  refine ⟨hsettings, ?_, fun h => (m.after_refused c).2 (.inl h),
    fun h => hcourse.requests_skipping (hskips.2 h), ?_,
    data, attrs, hcourse, hcourse.requests_split⟩
  · rw [foldl_refused]
    constructor
    · rintro (h | ⟨front, d, back, heq, hfile, hrefused⟩)
      · cases h
      · refine ⟨?_, front, d, back, heq, hfile, hrefused⟩
        -- a mapper that is told to use blocks makes no request
        have hkept := foldl_settings { settings } front
        refine Bool.eq_false_iff.2 fun hforced => ?_
        have hskipped := ((front.foldl after { settings }).skipsRequests_iff
          d.kind).2 (.inl (by rwa [hkept]))
        exact absurd (hrefused.1.symm.trans hskipped) nofun
    · rintro ⟨-, h⟩
      exact .inr h
  · intro hforced hkind
    refine hcourse.requests_asking (Bool.eq_false_iff.2 fun h => ?_)
    rcases hskips.1 h with h | ⟨-, hfile⟩
    · exact absurd (h.symm.trans hforced) nofun
    · exact hkind hfile

-- ============================================================= instances

/-- A file system that does not know the request for extents. -/
def unknowing : FileSource Unit where
  answer _ s := (.error (.unsupported "FIEMAP" (.code 95)), s)

/-- Blocks that cannot be told either. -/
def untold : BlockSource Unit where
  blockSize s := (.error (.system (.code 5)), s)
  lookup _ s := (.error (.system (.code 5)), s)

/-- An inode of a kind on such a file system. -/
def refusedCall (kind : InodeKind) : MapCall where
  target := ⟨.bare 12 kind, unknowing, untold⟩
  source := ()
  take _ e records := .ok (e :: records)
  listener := ([] : List RawExtent)

/-- After a refused file, whose blocks could not be read either, another
file is not asked for extents, and a directory still is. -/
theorem calls_fall_back_refusedCall :
    let m := [refusedCall .file].foldl after { settings := {} }
    m.refused = true ∧
    (m.run (refusedCall .file)).requests = [] ∧
    (m.run (refusedCall .directory)).requests.head?
      = some (m.firstRequest 0) := by
  intro m
  obtain ⟨-, hrefused, -, hskips, -⟩ :=
    calls_fall_back {} [refusedCall .file] (refusedCall .file)
  obtain ⟨-, -, -, -, hasks, -⟩ :=
    calls_fall_back {} [refusedCall .file] (refusedCall .directory)
  have hm : m.refused = true :=
    hrefused.2 ⟨rfl, [], _, [], rfl, rfl, rfl, _, rfl, rfl⟩
  exact ⟨hm, hskips (.inr ⟨hm, rfl⟩), hasks rfl (by decide)⟩

end Mapper

end DiskAtlas.Mapping
