/-
What an organization is told comes from its own documents.

The rows do not say what is in the vector store, so nothing is proved through them.  What
is kept is about the vectors alone: each was written by an upload that a member of the
organization began, and carries that upload's metadata below the keys the application
adds.
-/
import Orqent.Memory.Corpora
import Orqent.Nodes.Agent

namespace Orqent

variable {F ι : Type}

/-! ### Retrieval -/

/-- What the store and Python are asked for: the nearest chunk ids with their distances,
and `str` and `int` of a metadata value. -/
structure RetrievalPorts (F : Type) where
  embedQuery : Text → Option (List F)
  nearest : VectorStore F → List F → (topK : Nat) → List (String × F)
  str : MetadataValue F → String
  int : MetadataValue F → Int
  str_str : ∀ s, str (.str s) = s
  int_int : ∀ n, int (.int n) = n

/-- One vector found. -/
structure RetrievalMatch (F : Type) where
  chunkId : String
  text : Text
  distance : F
  metadata : Dict String (MetadataValue F)

/-- One chunk as the service returns it. -/
structure RetrievalResult (F : Type) where
  documentId : String
  ordinal : Int
  text : Text
  distance : F
  metadata : Dict String (MetadataValue F)

/-- How many results may be asked for. -/
def memoryMaxTopK : Nat := 50

/-- The nearest chunks of a namespace. -/
def VectorStore.query (P : RetrievalPorts F) (vectors : VectorStore F) (embedding : List F)
    (topK : Nat) : List (RetrievalMatch F) :=
  (P.nearest vectors embedding topK).filterMap fun e =>
    (vectors.get? e.1).map fun v => ⟨e.1, v.text, e.2, v.metadata⟩

/-- A mapping without a key. -/
def Dict.erase {κ ν : Type} [DecidableEq κ] (d : Dict κ ν) (key : κ) : Dict κ ν :=
  d.filter fun e => e.1 ≠ key

/-- `_result`: the application's own keys are taken out of the metadata. -/
def resultOf (P : RetrievalPorts F) (m : RetrievalMatch F) : RetrievalResult F where
  documentId := ((m.metadata.get? documentKey).map P.str).getD ""
  ordinal := (((m.metadata.erase documentKey).get? ordinalKey).map P.int).getD 0
  text := m.text
  distance := m.distance
  metadata := (m.metadata.erase documentKey).erase ordinalKey

/-- `MemoryService.retrieve`. -/
def retrieve (P : RetrievalPorts F) (namespaces : String → VectorStore F)
    (organizationPublicId : String) (query : Text) (topK : Nat) :
    Except IngestError (List (RetrievalResult F)) :=
  if (strip query).isEmpty then .error (.validation "A retrieval query cannot be empty.")
  else if topK < 1 ∨ memoryMaxTopK < topK then
    .error (.validation ("top_k must be between 1 and " ++ toString memoryMaxTopK ++ "."))
  else
    match P.embedQuery query with
    | none => .error .embedder
    | some embedding =>
        .ok (((namespaces (namespaceFor organizationPublicId)).query P embedding topK).map
          (resultOf P))

/-- What an agent is given of it. -/
def RetrievalResult.chunk (r : RetrievalResult F) : RetrievedChunk :=
  ⟨r.documentId, r.ordinal.toNat, String.ofList r.text⟩

/-! ### Where a vector comes from -/

section Origin

variable (collate : Text → Text) (d : Directory) (events : List (UploadEvent F ι))

/-- The id was drawn for an upload by a member of the organization, under a name that the
database takes for this one. -/
def Named (organizationId : Nat) (externalId : Text) (documentId : String) : Prop :=
  ∃ i u, .begin i u ∈ events ∧ (∃ publicId, d.caller u.caller = some (organizationId, publicId)) ∧
    collate (strip u.externalId) = collate externalId ∧ u.call.newPublicId = documentId

/-- The chunk is one of a text that a member of the organization uploaded. -/
structure Uploaded (publicId : String) (u : Upload F) (documentId : String) (chunk : Chunk) :
    Prop where
  begun : ∃ i, .begin i u ∈ events
  member : ∃ organizationId, d.caller u.caller = some (organizationId, publicId) ∧
    Named collate d events organizationId (strip u.externalId) documentId
  accepted : u.call.refusal (strip u.externalId) = none
  chunk : chunk ∈ chunkText u.call.text

/-- The vector is that of an uploaded chunk. -/
def Supplied (ns : String) (e : String × StoredVector F) : Prop :=
  ∃ publicId u documentId chunk, ns = namespaceFor publicId ∧
    Uploaded collate d events publicId u documentId chunk ∧ ∃ embedding,
      e = ((storedChunk u.call.metadata documentId chunk).1,
        ⟨chunk.text, (storedChunk u.call.metadata documentId chunk).2.2, embedding⟩)

/-- What an upload under way knows. -/
structure UploadingOk (u : Uploading F) : Prop where
  begun : ∃ i, .begin i u.upload ∈ events
  caller : ∃ publicId, d.caller u.upload.caller = some (u.organizationId, publicId) ∧
    u.vectorNamespace = namespaceFor publicId
  staged : ∀ document, (∃ embeddings, u.phase = .staged document embeddings ∨
      u.phase = .cleared document embeddings) ∨ u.phase = .written document →
    u.upload.call.refusal (strip u.upload.externalId) = none ∧
      Named collate d events u.organizationId (strip u.upload.externalId) document.publicId

/-- What is stored was supplied by a member, under ids drawn for the name. -/
structure CorporaOk (s : Corpora F ι) : Prop where
  vectors : ∀ ns, ∀ e ∈ s.vectors ns, Supplied collate d events ns e
  rows : ∀ organizationId externalId document,
    (s.documents organizationId).get? externalId = some document →
      Named collate d events organizationId externalId document.publicId
  opened : ∀ i u, s.opened i = some u → UploadingOk collate d events u

end Origin

section Kept

variable {d : Directory} {events : List (UploadEvent F ι)} {s s' : Corpora F ι}
  {e : UploadEvent F ι} {collate : Text → Text} {sha256 : Text → String} {i : ι} {u : Uploading F}

/-- The name a document is found by compares as the one it is stored under. -/
theorem collate_storedName {documents : Dict Text Document} {name : Text} :
    collate (storedName collate documents name) = collate name := by
  unfold storedName
  cases hfind : documents.find? fun e => collate e.1 = collate name with
  | none => rfl
  | some e => simpa using List.find?_some hfind

theorem Named.alike {organizationId : Nat} {externalId other : Text} {documentId : String}
    (h : Named collate d events organizationId externalId documentId)
    (hsame : collate externalId = collate other) :
    Named collate d events organizationId other documentId := by
  obtain ⟨i, u, hbegin, hcaller, hname, hid⟩ := h
  exact ⟨i, u, hbegin, hcaller, hname.trans hsame, hid⟩

theorem Named.snoc {organizationId : Nat} {externalId : Text} {documentId : String}
    (h : Named collate d events organizationId externalId documentId) (e : UploadEvent F ι) :
    Named collate d (events ++ [e]) organizationId externalId documentId := by
  obtain ⟨i, u, hbegin, hrest⟩ := h
  exact ⟨i, u, List.mem_append_left _ hbegin, hrest⟩

theorem Supplied.snoc {ns : String} {v : String × StoredVector F}
    (h : Supplied collate d events ns v)
    (e : UploadEvent F ι) : Supplied collate d (events ++ [e]) ns v := by
  obtain ⟨publicId, u, documentId, chunk, hns, huploaded, hv⟩ := h
  obtain ⟨⟨i, hbegin⟩, ⟨organizationId, hcaller, hnamed⟩, haccepted, hchunk⟩ := huploaded
  exact ⟨publicId, u, documentId, chunk, hns,
    ⟨⟨i, List.mem_append_left _ hbegin⟩, ⟨organizationId, hcaller, hnamed.snoc e⟩, haccepted,
      hchunk⟩, hv⟩

theorem UploadingOk.snoc (h : UploadingOk collate d events u) (e : UploadEvent F ι) :
    UploadingOk collate d (events ++ [e]) u := by
  obtain ⟨⟨i, hbegin⟩, hcaller, hstaged⟩ := h
  refine ⟨⟨i, List.mem_append_left _ hbegin⟩, hcaller, fun document hphase => ?_⟩
  obtain ⟨haccepted, hnamed⟩ := hstaged document hphase
  exact ⟨haccepted, hnamed.snoc e⟩

theorem CorporaOk.snoc (h : CorporaOk collate d events s) (e : UploadEvent F ι) :
    CorporaOk collate d (events ++ [e]) s where
  vectors := fun ns v hv => (h.vectors ns v hv).snoc e
  rows := fun organizationId externalId document hrow =>
    (h.rows organizationId externalId document hrow).snoc e
  opened := fun i u hu => (h.opened i u hu).snoc e

theorem CorporaOk.start : CorporaOk collate d events (Corpora.start : Corpora F ι) where
  vectors := fun ns v hv => absurd hv List.not_mem_nil
  rows := fun organizationId externalId document hrow => by cases hrow
  opened := fun i u hu => by cases hu

theorem CorporaOk.setVectors (h : CorporaOk collate d events s) {ns : String}
    {vectors : VectorStore F}
    (hvectors : ∀ v ∈ vectors, Supplied collate d events ns v) :
    CorporaOk collate d events (s.setVectors ns vectors) := by
  refine ⟨fun ns' v hv => ?_, h.rows, h.opened⟩
  dsimp only [Corpora.setVectors] at hv
  by_cases hns : ns' = ns
  · rw [hns, Function.update_self] at hv
    exact hns ▸ hvectors v hv
  · rw [Function.update_of_ne hns] at hv
    exact h.vectors ns' v hv

theorem CorporaOk.setDocuments (h : CorporaOk collate d events s) {organizationId : Nat}
    {documents : Dict Text Document}
    (hrows : ∀ externalId document, documents.get? externalId = some document →
      Named collate d events organizationId externalId document.publicId) :
    CorporaOk collate d events (s.setDocuments organizationId documents) := by
  refine ⟨h.vectors, fun organizationId' externalId document hrow => ?_, h.opened⟩
  dsimp only [Corpora.setDocuments] at hrow
  by_cases horg : organizationId' = organizationId
  · rw [horg, Function.update_self] at hrow
    exact horg ▸ hrows externalId document hrow
  · rw [Function.update_of_ne horg] at hrow
    exact h.rows organizationId' externalId document hrow

variable [DecidableEq ι]

theorem CorporaOk.close (h : CorporaOk collate d events s) (i : ι) :
    CorporaOk collate d events (s.close i) := by
  refine ⟨h.vectors, h.rows, fun j u hu => ?_⟩
  dsimp only [Corpora.close] at hu
  by_cases hj : j = i
  · rw [hj, Function.update_self] at hu
    cases hu
  · rw [Function.update_of_ne hj] at hu
    exact h.opened j u hu

theorem CorporaOk.go (h : CorporaOk collate d events s) {phase : UploadPhase F}
    (hu : UploadingOk collate d events { u with phase }) :
    CorporaOk collate d events (s.go i u phase) := by
  refine ⟨h.vectors, h.rows, fun j v hv => ?_⟩
  dsimp only [Corpora.go] at hv
  by_cases hj : j = i
  · rw [hj, Function.update_self] at hv
    exact Option.some.inj hv ▸ hu
  · rw [Function.update_of_ne hj] at hv
    exact h.opened j v hv

/-- The staged row is the one that was found, or has the id drawn for this upload. -/
theorem CorporaOk.stage (h : CorporaOk collate d events s) (hu : UploadingOk collate d events u) :
    CorporaOk collate d events (s.stage collate sha256 i u) := by
  unfold Corpora.stage
  dsimp only
  split
  · exact h.close i
  · rename_i haccepted
    split
    · exact h.close i
    · split
      · exact h.close i
      · rename_i embeddings _
        refine h.go ⟨hu.begun, hu.caller, fun document hphase => ⟨haccepted, ?_⟩⟩
        have hdocument : document = u.upload.call.staged (sha256 u.upload.call.text)
            ((s.documents u.organizationId).get? (storedName collate
              (s.documents u.organizationId) (strip u.upload.externalId))) := by
          rcases hphase with ⟨_, heq | heq⟩ | heq
          · cases heq
            rfl
          · cases heq
          · cases heq
        rw [hdocument]
        obtain ⟨j, hbegin⟩ := hu.begun
        obtain ⟨publicId, hcaller, -⟩ := hu.caller
        cases hfound : (s.documents u.organizationId).get? (storedName collate
            (s.documents u.organizationId) (strip u.upload.externalId)) with
        | none => exact ⟨j, u.upload, hbegin, ⟨publicId, hcaller⟩, rfl, rfl⟩
        | some found => exact (h.rows _ _ found hfound).alike collate_storedName

/-- The vectors an upload writes are those of its chunks. -/
theorem CorporaOk.write (h : CorporaOk collate d events s) (hu : UploadingOk collate d events u)
    {document : Document} {embeddings : List (List F)}
    (hphase : u.phase = .cleared document embeddings) :
    CorporaOk collate d events (s.write i u document embeddings) := by
  obtain ⟨haccepted, hnamed⟩ := hu.staged document (Or.inl ⟨embeddings, Or.inr hphase⟩)
  obtain ⟨publicId, hcaller, hns⟩ := hu.caller
  unfold Corpora.write
  dsimp only
  split
  · exact h.close i
  · rename_i vectors hupsert
    refine (h.setVectors fun v hv => ?_).go ⟨hu.begun, hu.caller, fun document' hphase' => ?_⟩
    · have hmem : v ∈ s.vectors u.vectorNamespace ∨
          v ∈ u.upload.call.entries document.publicId embeddings := by
        unfold VectorStore.upsert at hupsert
        split at hupsert
        · obtain rfl := Option.some.inj hupsert
          exact Or.inl hv
        · split at hupsert
          · cases hupsert
          · obtain rfl := Option.some.inj hupsert
            exact Dict.mem_assign _ hv
      rcases hmem with hold | hnew
      · exact h.vectors _ v hold
      · obtain ⟨pair, hpair, rfl⟩ := List.mem_map.mp hnew
        obtain ⟨chunk, hchunk, hstored⟩ := List.mem_map.mp (List.of_mem_zip hpair).1
        refine ⟨publicId, u.upload, document.publicId, chunk, hns,
          ⟨hu.begun, ⟨_, hcaller, hnamed⟩, haccepted, hchunk⟩, pair.2, ?_⟩
        rw [← hstored]
        rfl
    · rcases hphase' with ⟨_, heq | heq⟩ | heq
      · cases heq
      · cases heq
      · cases heq
        exact ⟨haccepted, hnamed⟩

theorem CorporaOk.commit (h : CorporaOk collate d events s) (hu : UploadingOk collate d events u)
    {document : Document} (hphase : u.phase = .written document) :
    CorporaOk collate d events (s.commit collate sha256 i u document) := by
  obtain ⟨-, hnamed⟩ := hu.staged document (Or.inr hphase)
  unfold Corpora.commit
  dsimp only
  split
  · refine (h.setDocuments fun externalId document' hrow => ?_).close i
    rw [Dict.get?_set] at hrow
    split at hrow
    · rename_i hkey
      obtain rfl := Option.some.inj hrow
      exact hkey ▸ hnamed.alike collate_storedName.symm
    · exact h.rows _ _ _ hrow
  · exact h.close i

theorem CorporaOk.step (h : CorporaOk collate d events s)
    (hstep : s.step collate sha256 d e = some s') :
    CorporaOk collate d (events ++ [e]) s' := by
  have hlater := h.snoc e
  cases e with
  | begin i u =>
      unfold Corpora.step at hstep
      dsimp only at hstep
      split at hstep
      · rename_i organizationId publicId hopened hcaller
        obtain rfl := Option.some.inj hstep
        refine hlater.go ⟨⟨i, by simp⟩, ⟨publicId, hcaller, rfl⟩, fun document hphase => ?_⟩
        rcases hphase with ⟨_, heq | heq⟩ | heq <;> cases heq
      · obtain rfl := Option.some.inj hstep
        exact hlater
      · cases hstep
  | stage i =>
      unfold Corpora.step at hstep
      dsimp only at hstep
      split at hstep
      · rename_i u hopened
        split at hstep
        · obtain rfl := Option.some.inj hstep
          exact hlater.stage (hlater.opened i u hopened)
        · cases hstep
      · cases hstep
  | clear i =>
      unfold Corpora.step at hstep
      dsimp only at hstep
      split at hstep
      · rename_i u hopened
        split at hstep
        · rename_i document embeddings hphase
          obtain rfl := Option.some.inj hstep
          have hu := hlater.opened i u hopened
          refine (hlater.setVectors fun v hv => ?_).go
            ⟨hu.begun, hu.caller, fun document' hphase' => ?_⟩
          · exact hlater.vectors _ v (mem_deleteDocument.mp hv).1
          · rcases hphase' with ⟨_, heq | heq⟩ | heq
            · cases heq
            · cases heq
              exact hu.staged document (Or.inl ⟨embeddings, Or.inl hphase⟩)
            · cases heq
        · cases hstep
      · cases hstep
  | write i =>
      unfold Corpora.step at hstep
      dsimp only at hstep
      split at hstep
      · rename_i u hopened
        split at hstep
        · rename_i document embeddings hphase
          obtain rfl := Option.some.inj hstep
          exact hlater.write (hlater.opened i u hopened) hphase
        · cases hstep
      · cases hstep
  | commit i =>
      unfold Corpora.step at hstep
      dsimp only at hstep
      split at hstep
      · rename_i u hopened
        split at hstep
        · rename_i document hphase
          obtain rfl := Option.some.inj hstep
          exact hlater.commit (hlater.opened i u hopened) hphase
        · cases hstep
      · cases hstep
  | abort i =>
      obtain ⟨u, hopened, rfl⟩ := Option.map_eq_some_iff.mp hstep
      exact hlater.close i

theorem corpora_ok
    (hrun : Trace.run (Corpora.step collate sha256 d) Corpora.start events = some s) :
    CorporaOk collate d events s :=
  Trace.run_induction (P := fun events s => CorporaOk collate d events s) CorporaOk.start
    (fun _ _ _ _ _ hok hstep => hok.step hstep) hrun

end Kept

/-! ### What is retrieved -/

section Retrieved

variable {P : RetrievalPorts F} {c : IngestCall F} {externalId : Text}

theorem exists_get? {metadata : Dict String (MetadataValue F)} {key : String}
    (h : key ∈ metadata.map Prod.fst) : ∃ value, metadata.get? key = some value := by
  induction metadata with
  | nil => cases h
  | cons entry rest ih =>
      by_cases hkey : entry.1 = key
      · exact ⟨entry.2, by simp [Dict.get?, hkey]⟩
      · obtain ⟨value, hvalue⟩ := ih ((List.mem_cons.mp h).resolve_left (Ne.symm hkey))
        exact ⟨value, by simp [Dict.get?, hkey, hvalue]⟩

/-- An accepted upload brings none of the application's own keys. -/
theorem notMem_of_accepted (h : c.refusal externalId = none) {key : String}
    (hkey : key ∈ reservedMetadataKeys) : key ∉ c.metadata.map Prod.fst := by
  intro hmem
  unfold IngestCall.refusal at h
  dsimp only at h
  split at h
  · cases h
  · split at h
    · cases h
    · split at h
      · cases h
      · split at h
        · cases h
        · rename_i hcollision
          have hempty : reservedMetadataKeys.filter (fun k => c.metadata.contains k) = [] := by
            simpa using hcollision
          have hnot := List.filter_eq_nil_iff.mp hempty key hkey
          exact hnot ((c.metadata.contains_iff key).mpr (exists_get? hmem))

theorem erase_of_notMem {metadata : Dict String (MetadataValue F)} {key : String}
    (h : key ∉ metadata.map Prod.fst) : metadata.erase key = metadata := by
  refine List.filter_eq_self.mpr fun e he => decide_eq_true fun hc => h ?_
  exact List.mem_map.mpr ⟨e, he, hc⟩

/-- The metadata of a stored chunk: what was supplied, and the two keys of the application. -/
theorem storedChunk_metadata (haccepted : c.refusal externalId = none) (documentId : String)
    (chunk : Chunk) : (storedChunk c.metadata documentId chunk).2.2 =
      c.metadata ++ [(documentKey, .str documentId), (ordinalKey, .int chunk.ordinal)] := by
  have hdocument : documentKey ∉ c.metadata.map Prod.fst :=
    notMem_of_accepted haccepted (by simp [reservedMetadataKeys])
  have hordinal : ordinalKey ∉ c.metadata.map Prod.fst :=
    notMem_of_accepted haccepted (by simp [reservedMetadataKeys])
  unfold storedChunk
  dsimp only
  rw [Dict.set_of_not_mem _ _ hdocument, Dict.set_of_not_mem, List.append_assoc]
  · rfl
  · rw [List.map_append, List.mem_append, not_or]
    exact ⟨hordinal, by simp [documentKey, ordinalKey]⟩

/-- The keys the application adds are taken out again, and nothing else is. -/
theorem resultOf_stored (haccepted : c.refusal externalId = none) (documentId : String)
    (chunk : Chunk) (key : String) (distance : F) :
    resultOf P ⟨key, chunk.text, distance, (storedChunk c.metadata documentId chunk).2.2⟩ =
      ⟨documentId, chunk.ordinal, chunk.text, distance, c.metadata⟩ := by
  have hdocument : documentKey ∉ c.metadata.map Prod.fst :=
    notMem_of_accepted haccepted (by simp [reservedMetadataKeys])
  have hordinal : ordinalKey ∉ c.metadata.map Prod.fst :=
    notMem_of_accepted haccepted (by simp [reservedMetadataKeys])
  have herased : Dict.erase (c.metadata ++ ([(documentKey, .str documentId),
      (ordinalKey, .int chunk.ordinal)] : Dict String (MetadataValue F))) documentKey =
        c.metadata.set ordinalKey (.int chunk.ordinal) := by
    rw [Dict.set_of_not_mem _ _ hordinal]
    unfold Dict.erase
    rw [List.filter_append]
    exact congrArg₂ _ (erase_of_notMem hdocument) (by simp [documentKey, ordinalKey])
  have hrest : (c.metadata.set ordinalKey (.int chunk.ordinal)).erase ordinalKey = c.metadata := by
    rw [Dict.set_of_not_mem _ _ hordinal]
    unfold Dict.erase
    rw [List.filter_append]
    exact (congrArg₂ _ (erase_of_notMem hordinal) (by simp)).trans (List.append_nil _)
  have hid : ((storedChunk c.metadata documentId chunk).2.2).get? documentKey =
      some (.str documentId) := by
    simp [storedChunk, Dict.get?_set, documentKey, ordinalKey]
  unfold resultOf
  dsimp only
  rw [hid, storedChunk_metadata haccepted, herased, hrest]
  simp [Dict.get?_set, P.str_str, P.int_int]

theorem namespaceFor_inj {a b : String} (h : namespaceFor a = namespaceFor b) : a = b := by
  have hlist := congrArg String.toList h
  unfold namespaceFor at hlist
  rw [String.toList_append, String.toList_append] at hlist
  exact String.toList_inj.mp (List.append_cancel_left hlist)

end Retrieved

/--
**An organization is told only what its members uploaded, as they uploaded it.**  Whatever
uploads run side by side and wherever they fail, every result of a retrieval is a chunk of
a text that a member of the organization uploaded, under an id that was drawn for an upload
by a member under that name, as the database compares names, and with exactly the metadata
it was uploaded with.
-/
theorem knowledge_provenance [DecidableEq ι] (P : RetrievalPorts F) (collate : Text → Text)
    (sha256 : Text → String) (d : Directory) (events : List (UploadEvent F ι)) (s : Corpora F ι)
    (publicId : String)
    (query : Text) (topK : Nat) (results : List (RetrievalResult F))
    (hrun : Trace.run (Corpora.step collate sha256 d) Corpora.start events = some s)
    (hresults : retrieve P s.vectors publicId query topK = .ok results) :
    ∀ r ∈ results, ∃ u chunk, Uploaded collate d events publicId u r.documentId chunk ∧
      r.ordinal = chunk.ordinal ∧ r.text = chunk.text ∧ r.metadata = u.call.metadata := by
  intro r hr
  have hok := corpora_ok hrun
  unfold retrieve at hresults
  split at hresults
  · cases hresults
  · split at hresults
    · cases hresults
    · split at hresults
      · cases hresults
      · obtain rfl := Except.ok.inj hresults
        obtain ⟨found, hfound, rfl⟩ := List.mem_map.mp hr
        obtain ⟨nearest, -, hnearest⟩ := List.mem_filterMap.mp hfound
        obtain ⟨v, hv, rfl⟩ := Option.map_eq_some_iff.mp hnearest
        obtain ⟨publicId', u, documentId, chunk, hns, huploaded, embedding, heq⟩ :=
          hok.vectors _ _ (Dict.mem_of_get? _ hv)
        obtain rfl := namespaceFor_inj hns
        obtain ⟨-, rfl⟩ := Prod.mk.inj heq
        refine ⟨u, chunk, ?_⟩
        rw [resultOf_stored huploaded.accepted]
        exact ⟨huploaded, rfl, rfl, rfl⟩

/-! ### Two organizations -/

/-- The store answers with the first vectors it holds. -/
def firstPorts : RetrievalPorts Nat where
  embedQuery _ := some [0]
  nearest vectors _ topK := (vectors.take topK).map fun e => (e.1, 0)
  str
    | .str s => s
    | .int n => toString n
    | .float x => toString x
    | .bool b => if b then "True" else "False"
  int
    | .int n => n
    | .bool b => if b then 1 else 0
    | .float x => x
    | .str _ => 0
  str_str _ := rfl
  int_int _ := rfl

/-- A member each of two organizations. -/
def twoOrganizations : Directory where
  users := [("alice", 1), ("bob", 2)]
  organizations := [(1, "acme"), (2, "globex")]

/-- An upload of a one-chunk text under the name `notes`. -/
def plainUpload (caller text newPublicId : String) : Upload Nat where
  caller
  externalId := "notes".toList
  call :=
    { text := text.toList
      title := none
      metadata := [("source", .str caller)]
      newPublicId
      embedded := some [[0]]
      deleteFails := false
      upsertFails := false
      commitFails := false }

/-- Two uploads under one name, side by side. -/
def sideBySide : List (UploadEvent Nat Nat) :=
  [.begin 0 (plainUpload "alice" "the launch is in May" "a"),
    .begin 1 (plainUpload "bob" "the launch is cancelled" "b"), .stage 1, .stage 0, .clear 0,
    .clear 1, .write 1, .write 0, .commit 1, .commit 0]

/-- What Acme is told of the launch. -/
theorem acme_told : ∃ s results,
    Trace.run (Corpora.step id (fun text => String.ofList text) twoOrganizations) Corpora.start
      sideBySide = some s ∧
    retrieve firstPorts s.vectors "acme" "launch".toList 5 = .ok results ∧ results.length = 1 ∧
    ∀ r ∈ results, ∃ u chunk,
      Uploaded id twoOrganizations sideBySide "acme" u r.documentId chunk ∧
        r.ordinal = chunk.ordinal ∧ r.text = chunk.text ∧ r.metadata = u.call.metadata := by
  have heval : (Trace.run (Corpora.step id (fun text => String.ofList text) twoOrganizations)
      Corpora.start sideBySide).bind (fun s =>
        (retrieve firstPorts s.vectors "acme" "launch".toList 5).toOption.map List.length) =
      some 1 := by
    decide +kernel
  obtain ⟨s, hrun, hretrieved⟩ := Option.bind_eq_some_iff.mp heval
  obtain ⟨results, hresults, hlength⟩ := Option.map_eq_some_iff.mp hretrieved
  cases hanswer : retrieve firstPorts s.vectors "acme" "launch".toList 5 with
  | error _ =>
      rw [hanswer] at hresults
      cases hresults
  | ok told =>
      rw [hanswer] at hresults
      obtain rfl := Option.some.inj hresults
      exact ⟨s, _, hrun, hanswer, hlength,
        knowledge_provenance firstPorts id _ twoOrganizations sideBySide s "acme" _ 5 _ hrun
          hanswer⟩

end Orqent
