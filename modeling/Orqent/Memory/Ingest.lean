/-
Ingesting a document.

The relational tables say which documents and chunks there are; the vector store holds
the vectors, outside any transaction.  An ingestion that gets past the content-hash
short cut embeds, deletes the document's vectors, upserts the new ones and commits, and
any of the four can fail: what was done to the vector store stays done, what was done to
the tables is rolled back.

A call carries what is outside the source: the public id a new document would get, what
the embedder answers, and which store calls fail.
-/
import Orqent.Engine.State
import Orqent.Lib.Decimal
import Orqent.Lib.Dict
import Orqent.Memory.Chunking

namespace Orqent

variable {F : Type}

/-! ### The two stores -/

/-- A metadata value; `F` are the floating-point numbers. -/
inductive MetadataValue (F : Type)
  | str (s : String)
  | int (n : Int)
  | float (x : F)
  | bool (b : Bool)
deriving DecidableEq, Repr

/-- The metadata key a chunk is found by. -/
def documentKey : String := "document_id"

/-- The metadata key its place is kept under. -/
def ordinalKey : String := "ordinal"

/-- What the store holds under a chunk id. -/
structure StoredVector (F : Type) where
  text : Text
  metadata : Dict String (MetadataValue F)
  embedding : List F
deriving DecidableEq, Repr

/-- The document a vector says it belongs to. -/
def StoredVector.documentId (v : StoredVector F) : Option String :=
  match v.metadata.get? documentKey with
  | some (.str id) => some id
  | _ => none

/-- One namespace of the vector store, by chunk id. -/
abbrev VectorStore (F : Type) := Dict String (StoredVector F)

/-- Remove every vector carrying this document's id. -/
def VectorStore.deleteDocument (vectors : VectorStore F) (documentId : String) : VectorStore F :=
  vectors.filter fun e => e.2.documentId ≠ some documentId

/-- Write a vector for each chunk, replacing by chunk id; the pairing is by position. -/
def VectorStore.upsert (vectors : VectorStore F)
    (chunks : List (String × Text × Dict String (MetadataValue F))) (embeddings : List (List F)) :
    Option (VectorStore F) :=
  if chunks.isEmpty then some vectors
  else if chunks.length ≠ embeddings.length then none
  else
    some <| vectors.assign <| (chunks.zip embeddings).map fun e =>
      (e.1.1, ⟨e.1.2.1, e.1.2.2, e.2⟩)

/-- A row of `document_chunks`. -/
structure DocumentChunk where
  ordinal : Nat
  textHash : String
  charStart : Nat
  charEnd : Nat
deriving DecidableEq, Repr

/-- A row of `documents`, with its chunk rows; its external id is its key. -/
structure Document where
  publicId : String
  title : Option String
  contentHash : String
  chunkCount : Nat
  chunks : List DocumentChunk
deriving DecidableEq, Repr

/-- One organization's documents, and its namespace of the vector store. -/
structure Memory (F : Type) where
  documents : Dict Text Document
  vectors : VectorStore F
deriving DecidableEq, Repr

/-! ### Ingestion -/

/-- A call of `ingest_document`, and what it meets with outside. -/
structure IngestCall (F : Type) where
  text : Text
  title : Option String
  metadata : Dict String (MetadataValue F)
  /-- The id a new document would get. -/
  newPublicId : String
  /-- What the embedder answers, or `none` if it fails. -/
  embedded : Option (List (List F))
  deleteFails : Bool
  upsertFails : Bool
  commitFails : Bool

/-- What it returns. -/
structure IngestionResult where
  documentId : String
  chunkCount : Nat
  unchanged : Bool
deriving DecidableEq, Repr

/-- What it raises. -/
inductive IngestError
  | validation (message : String)
  | embedder
  | vectorStore
  | database
deriving DecidableEq, Repr

/-- How long the name of a document may be. -/
def maxExternalIdLength : Nat := 255

/-- The metadata keys the application owns, in sorted order. -/
def reservedMetadataKeys : List String := [documentKey, ordinalKey, "organization_id"]

/-- The id of a chunk in the vector store. -/
def chunkId (publicId : String) (ordinal : Nat) : String := publicId ++ ":" ++ toString ordinal

/-- What is upserted for a chunk. -/
def storedChunk (supplied : Dict String (MetadataValue F)) (publicId : String) (c : Chunk) :
    String × Text × Dict String (MetadataValue F) :=
  (chunkId publicId c.ordinal, c.text,
    (supplied.set documentKey (.str publicId)).set ordinalKey (.int c.ordinal))

/-- The row recorded for a chunk. -/
def chunkRow (sha256 : Text → String) (c : Chunk) : DocumentChunk :=
  ⟨c.ordinal, sha256 c.text, c.start, c.stop⟩

/-- What is wrong with a call before any store is looked at. -/
def IngestCall.refusal (c : IngestCall F) (externalId : Text) : Option String :=
  let collision := reservedMetadataKeys.filter fun key => c.metadata.contains key
  if externalId.isEmpty then some "A document needs an external_id."
  else if maxExternalIdLength < externalId.length then
    some ("external_id must be at most " ++ toString maxExternalIdLength ++ " characters.")
  else if (chunkText c.text).isEmpty then some "A document must contain some text to ingest."
  else if !collision.isEmpty then
    some ("These metadata keys are reserved and cannot be set: ["
      ++ String.intercalate ", " (collision.map quoted) ++ "].")
  else none

/-- From the embedding to the commit, for a row that is staged. -/
def indexDocument (sha256 : Text → String) (externalId : Text) (c : IngestCall F)
    (document : Document) (m : Memory F) : Except IngestError IngestionResult × Memory F :=
  let chunks := chunkText c.text
  match c.embedded with
  | none => (.error .embedder, m)
  | some embeddings =>
      let document :=
        { document with chunks := chunks.map (chunkRow sha256), chunkCount := chunks.length }
      if c.deleteFails then (.error .vectorStore, m)
      else
        let deleted := m.vectors.deleteDocument document.publicId
        let stored := chunks.map (storedChunk c.metadata document.publicId)
        match if c.upsertFails then none else deleted.upsert stored embeddings with
        | none => (.error .vectorStore, { m with vectors := deleted })
        | some vectors =>
            if c.commitFails then (.error .database, { m with vectors })
            else
              (.ok ⟨document.publicId, chunks.length, false⟩,
                { documents := m.documents.set externalId document, vectors })

/-- The row an ingestion stages: a new one, or the document's own brought up to date. -/
def IngestCall.staged (c : IngestCall F) (contentHash : String) : Option Document → Document
  | none => ⟨c.newPublicId, c.title, contentHash, 0, []⟩
  | some d => { d with contentHash, title := c.title.orElse fun _ => d.title }

/-- Chunk, embed, and index one document. -/
def ingestDocument (sha256 : Text → String) (externalId : Text) (c : IngestCall F) (m : Memory F) :
    Except IngestError IngestionResult × Memory F :=
  let externalId := strip externalId
  match c.refusal externalId with
  | some message => (.error (.validation message), m)
  | none =>
      let contentHash := sha256 c.text
      let found := m.documents.get? externalId
      match found.filter fun d => d.contentHash = contentHash with
      | some d => (.ok ⟨d.publicId, d.chunkCount, true⟩, m)
      | none => indexDocument sha256 externalId c (c.staged contentHash found) m

/-! ### How far a call gets -/

/-- Where a call ended: the step that failed, or how it returned. -/
inductive Reached
  | refused
  | unchanged
  | embedding
  | deleting
  | upserting
  | committing
  | done
deriving DecidableEq, Repr

/-- The call got past its delete. -/
def Reached.writes : Reached → Bool
  | upserting | committing | done => true
  | _ => false

/-- The call returned. -/
def Reached.returns : Reached → Bool
  | unchanged | done => true
  | _ => false

/-- How far a call gets, by the document's row and what fails. -/
def IngestCall.reached (sha256 : Text → String) (externalId : Text) (c : IngestCall F)
    (m : Memory F) : Reached :=
  let externalId := strip externalId
  if (c.refusal externalId).isSome then .refused
  else if (m.documents.get? externalId).any fun d => d.contentHash = sha256 c.text then .unchanged
  else
    match c.embedded with
    | none => .embedding
    | some embeddings =>
        if c.deleteFails then .deleting
        else if c.upsertFails || (chunkText c.text).length ≠ embeddings.length then .upserting
        else if c.commitFails then .committing
        else .done

/-! ### What a document's vectors are -/

/-- The vectors that carry one of these document ids: their chunk ids and texts. -/
def VectorStore.belonging (ids : List String) (vectors : VectorStore F) : List (String × Text) :=
  (vectors.filter fun e => e.2.documentId.any (· ∈ ids)).map fun e => (e.1, e.2.text)

/-- One entry per chunk of the text. -/
def chunkEntries (publicId : String) (text : Text) : List (String × Text) :=
  (chunkText text).map fun c => (chunkId publicId c.ordinal, c.text)

/-- The chunks of a text are told apart by their texts alone: their positions are given. -/
theorem chunkEntries_inj {publicId : String} {text text' : Text} :
    chunkEntries publicId text = chunkEntries publicId text' ↔
      (chunkText text).map Chunk.text = (chunkText text').map Chunk.text := by
  have hzip : ∀ t : Text, chunkEntries publicId t =
      (((List.range (chunkText t).length).map (chunkId publicId)).zip
        ((chunkText t).map Chunk.text)) := by
    intro t
    rw [← chunkText_ordinals, List.map_map, List.zip_map']
    rfl
  constructor
  · intro h
    have htexts := congrArg (List.map Prod.snd) h
    simpa [chunkEntries, List.map_map, Function.comp_def] using htexts
  · intro h
    have hlength := congrArg List.length h
    rw [List.length_map, List.length_map] at hlength
    rw [hzip, hzip, h, hlength]

/-- The store as ingestion leaves it: an entry's key is made of its document's id. -/
structure VectorStore.Keyed (vectors : VectorStore F) : Prop where
  keys : ∀ e ∈ vectors, ∃ id ordinal, e.2.documentId = some id ∧ e.1 = chunkId id ordinal
  nodup : (vectors.map Prod.fst).Nodup

/-- A chunk id names its document and its position. -/
theorem chunkId_inj {id id' : String} {n n' : Nat} (h : chunkId id n = chunkId id' n') :
    id = id' ∧ n = n' :=
  append_colon_toString_inj h

/-! ### What a call does to the stores -/

/-- The vectors a call writes for a document. -/
def IngestCall.entries (c : IngestCall F) (publicId : String) (embeddings : List (List F)) :
    VectorStore F :=
  (((chunkText c.text).map (storedChunk c.metadata publicId)).zip embeddings).map fun e =>
    (e.1.1, ⟨e.1.2.1, e.1.2.2, e.2⟩)

section Entries

variable {c : IngestCall F} {publicId : String} {embeddings : List (List F)}
  {vectors : VectorStore F}

theorem entries_documentId {e : String × StoredVector F} (h : e ∈ c.entries publicId embeddings) :
    e.2.documentId = some publicId := by
  obtain ⟨pair, hpair, rfl⟩ := List.mem_map.mp h
  obtain ⟨chunk, -, hchunk⟩ := List.mem_map.mp (List.of_mem_zip hpair).1
  rw [← hchunk]
  simp [StoredVector.documentId, storedChunk, Dict.get?_set, documentKey, ordinalKey]

/-- With an embedding for every chunk, there is an entry for every chunk. -/
theorem entries_eq (publicId : String) (h : (chunkText c.text).length = embeddings.length) :
    (c.entries publicId embeddings).map (fun e => (e.1, e.2.text)) =
      chunkEntries publicId c.text := by
  unfold IngestCall.entries
  rw [List.map_map]
  have hfirst : ((fun e : String × StoredVector F => (e.1, e.2.text)) ∘
      fun e : (String × Text × Dict String (MetadataValue F)) × List F =>
        ((e.1.1, ⟨e.1.2.1, e.1.2.2, e.2⟩) : String × StoredVector F)) =
      (fun s => (s.1, s.2.1)) ∘ Prod.fst := rfl
  rw [hfirst, ← List.map_map, List.map_fst_zip (by simp [h]), List.map_map]
  rfl

theorem entries_keys (h : (chunkText c.text).length = embeddings.length) :
    (c.entries publicId embeddings).map Prod.fst =
      (List.range (chunkText c.text).length).map (chunkId publicId) := by
  have hfst := congrArg (List.map Prod.fst) (entries_eq publicId h)
  rw [List.map_map] at hfst
  have hleft : (Prod.fst ∘ fun e : String × StoredVector F => (e.1, e.2.text)) = Prod.fst := rfl
  rw [hleft] at hfst
  rw [hfst, ← chunkText_ordinals, List.map_map, chunkEntries, List.map_map]
  rfl

theorem mem_deleteDocument {e : String × StoredVector F} :
    e ∈ vectors.deleteDocument publicId ↔ e ∈ vectors ∧ e.2.documentId ≠ some publicId := by
  rw [VectorStore.deleteDocument, List.mem_filter, decide_eq_true_eq]

theorem VectorStore.Keyed.delete (h : vectors.Keyed) : (vectors.deleteDocument publicId).Keyed where
  keys := fun e he => h.keys e (mem_deleteDocument.mp he).1
  nodup := h.nodup.sublist (List.filter_sublist.map _)

/-- The keys of the new entries are none of the others'. -/
theorem VectorStore.Keyed.append_entries (h : vectors.Keyed)
    (hlength : (chunkText c.text).length = embeddings.length) :
    VectorStore.Keyed (vectors.deleteDocument publicId ++ c.entries publicId embeddings) := by
  have hordinal : ∀ e ∈ c.entries publicId embeddings, ∃ n, e.1 = chunkId publicId n := by
    intro e he
    have hkey := List.mem_map_of_mem (f := Prod.fst) he
    rw [entries_keys hlength] at hkey
    obtain ⟨n, -, hn⟩ := List.mem_map.mp hkey
    exact ⟨n, hn.symm⟩
  refine ⟨fun e he => ?_, ?_⟩
  · rcases List.mem_append.mp he with hold | hnew
    · exact h.delete.keys e hold
    · obtain ⟨n, hn⟩ := hordinal e hnew
      exact ⟨publicId, n, entries_documentId hnew, hn⟩
  · rw [List.map_append]
    refine List.Nodup.append h.delete.nodup ?_ ?_
    · rw [entries_keys hlength]
      exact List.nodup_range.map fun n n' hn => (chunkId_inj hn).2
    · intro key hold hnew
      obtain ⟨e, he, rfl⟩ := List.mem_map.mp hold
      obtain ⟨e', he', hkey⟩ := List.mem_map.mp hnew
      obtain ⟨id, n, hid, hn⟩ := h.delete.keys e he
      obtain ⟨n', hn'⟩ := hordinal e' he'
      rw [hn, hn'] at hkey
      exact (mem_deleteDocument.mp he).2 (hid.trans (by rw [(chunkId_inj hkey).1]))

theorem upsert_entries (h : vectors.Keyed) (hsome : chunkText c.text ≠ [])
    (hlength : (chunkText c.text).length = embeddings.length) :
    (vectors.deleteDocument publicId).upsert
        ((chunkText c.text).map (storedChunk c.metadata publicId)) embeddings =
      some (vectors.deleteDocument publicId ++ c.entries publicId embeddings) := by
  unfold VectorStore.upsert
  rw [if_neg (by simpa using hsome), if_neg (by simpa using hlength)]
  exact congrArg some (Dict.assign_append _ _ (h.append_entries hlength).nodup)

end Entries

/-- The row a call finds. -/
def Memory.found (m : Memory F) (externalId : Text) : Option Document :=
  m.documents.get? (strip externalId)

/-- The document whose vectors a call writes. -/
def IngestCall.target (c : IngestCall F) (m : Memory F) (externalId : Text) : String :=
  match m.found externalId with
  | some d => d.publicId
  | none => c.newPublicId

/-- Everything a call can do, by where it ended. -/
inductive Ingests (externalId : Text) (c : IngestCall F) (m : Memory F) :
    Reached → Except IngestError IngestionResult → Memory F → Prop
  /-- Neither store changes. -/
  | kept (reached : Reached) (e : IngestError) (hnot : reached.writes = false)
      (hreturns : reached.returns = false) : Ingests externalId c m reached (.error e) m
  | unchanged (d : Document) (hfound : m.found externalId = some d)
      (hsome : chunkText c.text ≠ []) :
      Ingests externalId c m .unchanged (.ok ⟨d.publicId, d.chunkCount, true⟩) m
  /-- The old vectors are gone, and the new ones were not written. -/
  | upserting : Ingests externalId c m .upserting (.error .vectorStore)
      { m with vectors := m.vectors.deleteDocument (c.target m externalId) }
  /-- The new vectors are there, and the row is not. -/
  | committing (embeddings : List (List F)) (hsome : chunkText c.text ≠ [])
      (hlength : (chunkText c.text).length = embeddings.length) :
      Ingests externalId c m .committing (.error .database)
        { m with
          vectors := m.vectors.deleteDocument (c.target m externalId) ++
            c.entries (c.target m externalId) embeddings }
  | done (embeddings : List (List F)) (document : Document)
      (hid : document.publicId = c.target m externalId) (hsome : chunkText c.text ≠ [])
      (hlength : (chunkText c.text).length = embeddings.length) :
      Ingests externalId c m .done
        (.ok ⟨c.target m externalId, (chunkText c.text).length, false⟩)
        { documents := m.documents.set (strip externalId) document
          vectors := m.vectors.deleteDocument (c.target m externalId) ++
            c.entries (c.target m externalId) embeddings }

/-- `indexDocument`, by what fails. -/
theorem indexDocument_ingests (sha256 : Text → String) {externalId : Text} {c : IngestCall F}
    {m : Memory F} {document : Document} (h : m.vectors.Keyed) (hsome : chunkText c.text ≠ [])
    (hid : document.publicId = c.target m externalId) {reached : Reached}
    (hreached : reached = match c.embedded with
      | none => .embedding
      | some embeddings =>
          if c.deleteFails then .deleting
          else if c.upsertFails || (chunkText c.text).length ≠ embeddings.length then .upserting
          else if c.commitFails then .committing
          else .done) :
    Ingests externalId c m reached (indexDocument sha256 (strip externalId) c document m).1
      (indexDocument sha256 (strip externalId) c document m).2 := by
  unfold indexDocument
  dsimp only
  cases hembedded : c.embedded with
  | none =>
      rw [hembedded] at hreached
      subst hreached
      exact .kept _ _ rfl rfl
  | some embeddings =>
      rw [hembedded] at hreached
      dsimp only at hreached ⊢
      by_cases hdelete : c.deleteFails = true
      · rw [if_pos hdelete] at hreached ⊢
        subst hreached
        exact .kept _ _ rfl rfl
      rw [if_neg hdelete] at hreached ⊢
      rw [hid]
      by_cases hupsert : c.upsertFails = true
      · rw [if_pos (by simp [hupsert])] at hreached
        rw [if_pos hupsert]
        subst hreached
        exact .upserting
      rw [if_neg hupsert]
      by_cases hlength : (chunkText c.text).length = embeddings.length
      · rw [if_neg (by simp [hupsert, hlength])] at hreached
        rw [upsert_entries h hsome hlength]
        dsimp only
        by_cases hcommit : c.commitFails = true
        · rw [if_pos hcommit] at hreached ⊢
          subst hreached
          exact .committing embeddings hsome hlength
        · rw [if_neg hcommit] at hreached ⊢
          subst hreached
          exact .done embeddings _ rfl hsome hlength
      · -- The store refuses to pair chunks with too few or too many embeddings.
        rw [if_pos (by simp [hlength])] at hreached
        have hrefused : (m.vectors.deleteDocument (c.target m externalId)).upsert
            ((chunkText c.text).map (storedChunk c.metadata (c.target m externalId))) embeddings
              = none := by
          unfold VectorStore.upsert
          rw [if_neg (by simpa using hsome), if_pos (by simpa using hlength)]
        rw [hrefused]
        subst hreached
        exact .upserting

/-- **What an ingestion does.** -/
theorem ingestDocument_ingests (sha256 : Text → String) (externalId : Text) (c : IngestCall F)
    {m : Memory F} (h : m.vectors.Keyed) :
    Ingests externalId c m (c.reached sha256 externalId m)
      (ingestDocument sha256 externalId c m).1 (ingestDocument sha256 externalId c m).2 := by
  unfold ingestDocument IngestCall.reached
  dsimp only
  cases hrefusal : c.refusal (strip externalId) with
  | some message =>
      rw [if_pos (by rfl)]
      exact .kept _ _ rfl rfl
  | none =>
      have hsome : chunkText c.text ≠ [] := by
        intro hc
        unfold IngestCall.refusal at hrefusal
        split at hrefusal
        · cases hrefusal
        · split at hrefusal
          · cases hrefusal
          · rw [if_pos (by simp [hc])] at hrefusal
            cases hrefusal
      rw [if_neg (by simp)]
      dsimp only
      have hfound : m.documents.get? (strip externalId) = m.found externalId := rfl
      rw [hfound]
      cases hrow : m.found externalId with
      | none =>
          refine indexDocument_ingests sha256 h hsome ?_ rfl
          rw [IngestCall.target, hrow]
          rfl
      | some d =>
          by_cases hhash : d.contentHash = sha256 c.text
          · rw [Option.filter, if_pos (decide_eq_true hhash),
              if_pos (by exact decide_eq_true hhash)]
            exact .unchanged d hrow hsome
          · have hany : ¬ (some d).any (fun d => decide (d.contentHash = sha256 c.text)) =
              true := by
              simpa using hhash
            have hfilter : (some d).filter (fun d => decide (d.contentHash = sha256 c.text)) =
              none := by
              simpa using hhash
            rw [hfilter, if_neg hany]
            refine indexDocument_ingests sha256 h hsome ?_ rfl
            rw [IngestCall.target, hrow]
            rfl

end Orqent
