import Lockstep.Storage.WalEngine

/-!
# Streams on disk

The write-ahead log and the manifest are streams: an optional header and records back to back.
`HoldsRecords` says what an image holds, and `Disk.Streams` what a disk holds before and after a
crash; appends and syncs keep it (`Disk.Streams.append`, `Disk.Streams.sync`), and so does a crash
(`Disk.Streams.crash`).
-/

namespace Lockstep.Storage

open Library RecordStream WalEngine Format WalRecord List

variable {ρ : Type*} {header : List UInt8} {encode : ρ → List UInt8}

lemma streamBody_header {magic version : ℕ} (hmagic : magic < 2 ^ 32)
    (hversion : version < 2 ^ 32) (body : List UInt8) :
    streamBody (putStreamHeader magic version ++ body) magic version = body := by
  have hlength := length_putStreamHeader magic version
  have hcheck := checkStreamHeader_putStreamHeader body hmagic hversion
  have hread := @getU32_putStreamHeader magic version body hmagic
  rw [streamBody, if_pos ⟨by rw [length_append, hlength]; omega, hread⟩, hcheck,
    ← hlength, drop_left]
  rfl

def HoldsRecords (header : List UInt8) (encode : ρ → List UInt8) (image : List UInt8)
    (records : List ρ) : Prop :=
  ∃ front, (front = [] ∨ front = header) ∧ image = front ++ records.flatMap encode

namespace HoldsRecords

variable {image : List UInt8} {records : List ρ}

lemma nil : HoldsRecords header encode [] ([] : List ρ) := ⟨[], Or.inl rfl, rfl⟩

lemma append (h : HoldsRecords header encode image records) (r : ρ) :
    HoldsRecords header encode (image ++ encode r) (records ++ [r]) := by
  obtain ⟨front, hfront, rfl⟩ := h
  refine ⟨front, hfront, ?_⟩
  rw [flatMap_append, flatMap_singleton, append_assoc]

lemma appendFront (h : HoldsRecords header encode image records) {front : List UInt8}
    (hfront : front = [] ∨ front = header ∧ image = []) :
    HoldsRecords header encode (image ++ front) records := by
  rcases hfront with rfl | ⟨rfl, rfl⟩
  · rw [append_nil]
    exact h
  · obtain ⟨old, -, hnil⟩ := h
    refine ⟨front, .inr rfl, ?_⟩
    rw [(append_eq_nil_iff.mp hnil.symm).2, append_nil, nil_append]

lemma map {σ : Type*} {encode' : σ → List UInt8} {f : ρ → σ}
    (hf : ∀ r, encode' (f r) = encode r) (h : HoldsRecords header encode image records) :
    HoldsRecords header encode' image (records.map f) := by
  obtain ⟨front, hfront, rfl⟩ := h
  refine ⟨front, hfront, ?_⟩
  rw [flatMap_map]
  simp only [hf]

lemma streamBody_eq {magic version : ℕ} (hmagic : magic < 2 ^ 32) (hversion : version < 2 ^ 32)
    (hother : ∀ r ∈ records, ∀ rest, getU32 (encode r ++ rest) 0 ≠ magic)
    (h : HoldsRecords (putStreamHeader magic version) encode image records) :
    streamBody image magic version = records.flatMap encode := by
  obtain ⟨front, rfl | rfl, rfl⟩ := h
  · rw [nil_append, streamBody]
    cases records with
    | nil => rfl
    | cons r records =>
      rw [flatMap_cons, if_neg fun hhead ↦ hother r mem_cons_self _ hhead.2]
  · exact streamBody_header hmagic hversion _

end HoldsRecords

/-- Records are appended to the disk behind an optional header. The first of them are synced. -/
structure Disk.Streams (d : Disk) (header : List UInt8) (encode : ρ → List UInt8)
    (synced records : List ρ) : Prop where
  durable : HoldsRecords header encode d.durable synced
  image : HoldsRecords header encode d.image records
  synced_le : synced <+: records

namespace Disk.Streams

variable {d : Disk} {synced records : List ρ}

lemma empty : ({} : Disk).Streams header encode [] [] where
  durable := HoldsRecords.nil
  image := HoldsRecords.nil
  synced_le := prefix_rfl

lemma append (h : d.Streams header encode synced records) (r : ρ) :
    (d.append (encode r)).Streams header encode synced (records ++ [r]) where
  durable := h.durable
  image := by
    rw [image_append]
    exact h.image.append r
  synced_le := h.synced_le.trans (prefix_append _ _)

lemma appendHeader (hempty : d.image = []) :
    (d.append header).Streams header encode [] [] where
  durable := by
    rw [durable_append, (append_eq_nil_iff.mp hempty).1]
    exact HoldsRecords.nil
  image := ⟨header, .inr rfl, by rw [image_append, hempty, nil_append, flatMap_nil, append_nil]⟩
  synced_le := prefix_rfl

lemma sync (h : d.Streams header encode synced records) :
    d.sync.Streams header encode records records where
  durable := h.image
  image := by
    rw [image_sync]
    exact h.image
  synced_le := prefix_rfl

lemma crash (h : d.Streams header encode synced records) :
    d.crash.Streams header encode synced synced where
  durable := h.durable
  image := by
    rw [image_crash]
    exact h.durable
  synced_le := prefix_rfl

end Disk.Streams

def manifestHeader : List UInt8 := putStreamHeader kManStreamMagic kManifestVersion

lemma getU32_encode (r : ManifestRecord) (rest : List UInt8) :
    getU32 (r.encode ++ rest) 0 ≠ kManStreamMagic := by
  obtain ⟨entryNo, kind⟩ := r
  cases kind <;>
    simp [ManifestRecord.encode, encodeManifest, encodeManifestObsolete, encodeManifestWalTrunc,
      encodeAux, withCrc]
  · rw [getU32_putU32 (by decide)]
    decide
  · rw [getU32_putU32 (by decide)]
    decide
  · rw [getU32_putU32 (by decide)]
    decide

lemma manifestBody_eq {image : List UInt8} {records : List ManifestRecord}
    (h : HoldsRecords manifestHeader ManifestRecord.encode image records) :
    streamBody image kManStreamMagic kManifestVersion =
        (records.map ManifestRecord.wrap).flatMap ManifestRecord.encode ∧
      ∀ r ∈ records.map ManifestRecord.wrap, ∀ rest,
        decodeManifest (r.encode ++ rest) = some (r, rest) := by
  have hwrap := h.map (f := ManifestRecord.wrap) (fun r ↦ r.encode_wrap)
  refine ⟨hwrap.streamBody_eq (by decide) (by decide) fun r _ rest ↦ getU32_encode r rest, ?_⟩
  intro r hr rest
  obtain ⟨r, -, rfl⟩ := mem_map.mp hr
  exact decodeManifest_encode r.wrap_fits rest

lemma foldManifestImage_eq_steps {image : List UInt8} {records : List ManifestRecord}
    (h : HoldsRecords manifestHeader ManifestRecord.encode image records) :
    foldManifestImage image =
      steps foldManifest (records.map ManifestRecord.wrap) {} := by
  obtain ⟨hbody, hdecode⟩ := manifestBody_eq h
  rw [foldManifestImage, hbody]
  exact scan_flatMap hdecode rfl
    (length_le_length_flatMap fun r _ ↦ length_encode_pos r) _

/-! ### The write-ahead log -/

def walHeader : List UInt8 := putStreamHeader kWalStreamMagic kWalStreamVersion

lemma getU32_encodeRecord (r : WalRecord) (rest : List UInt8) :
    getU32 (encodeRecord r ++ rest) 0 ≠ kWalStreamMagic := by
  rw [encodeRecord, payload, header, append_assoc, append_assoc,
    append_assoc, getU32_putU32 (by decide)]
  decide

lemma replayImage_eq_steps (e : WalEngine) {image : List UInt8} {records : List WalRecord}
    (hfits : ∀ r ∈ records, r.Fits) (h : HoldsRecords walHeader encodeRecord image records) :
    e.replayImage image = steps e.replayRecord records
      { mem := e.mem.clear, lastSeq := e.lastSeq, expect := e.walTruncSeq + 1 } := by
  have hbody := h.streamBody_eq (by decide) (by decide) fun r _ rest ↦ getU32_encodeRecord r rest
  have hlength : ∀ r ∈ records, 0 < (encodeRecord r).length := by
    intro r _
    rw [length_encodeRecord, kWalHeaderBytes]
    omega
  rw [replayImage, hbody]
  exact scan_flatMap (fun r hr rest ↦ tryDecode_encodeRecord (hfits r hr) rest) rfl
    (length_le_length_flatMap hlength) _

lemma streamBody_take_lt {image : List UInt8} {cut : ℕ} (hcut : cut < kStreamHeaderBytes) :
    streamBody (image.take cut) kWalStreamMagic kWalStreamVersion =
      image.take cut := by
  have hlength : (image.take cut).length < kStreamHeaderBytes :=
    (length_take_le cut image).trans_lt hcut
  rw [streamBody, if_neg fun hhead ↦ absurd hhead.1 (not_le.mpr hlength)]

lemma streamBody_take {front : List UInt8} (hfront : front = [] ∨ front = walHeader)
    (records : List WalRecord) {cut : ℕ} (hcut : kStreamHeaderBytes ≤ cut) :
    streamBody ((front ++ records.flatMap encodeRecord).take cut) kWalStreamMagic
      kWalStreamVersion = (records.flatMap encodeRecord).take (cut - front.length) := by
  rcases hfront with rfl | rfl
  · rw [nil_append, length_nil, Nat.sub_zero, streamBody, if_neg]
    rintro ⟨-, hmagic⟩
    rw [getU32_take ((show 0 + 4 ≤ 8 by decide).trans hcut)] at hmagic
    cases records with
    | nil => exact absurd hmagic (by decide)
    | cons r records => exact getU32_encodeRecord r _ hmagic
  · have hlength : walHeader.length ≤ cut := hcut
    rw [take_append, take_of_length_le hlength]
    exact streamBody_header (by decide) (by decide) _

section Cut

variable {front : List UInt8} {records : List WalRecord}

lemma scan_streamBody_take {σ : Type*} {step : σ → WalRecord → Option σ} (state : σ)
    (hfits : ∀ r ∈ records, r.Fits) (hfront : front = [] ∨ front = walHeader) (cut : ℕ) :
    let body := streamBody ((front ++ records.flatMap encodeRecord).take cut) kWalStreamMagic
      kWalStreamVersion
    scan tryDecode step body.length body state =
      steps step (within encodeRecord (cut - front.length) records) state := by
  have hlength : ∀ r : WalRecord, 25 ≤ (encodeRecord r).length := by
    intro r
    rw [length_encodeRecord, kWalHeaderBytes, kWalCrcBytes]
    omega
  dsimp only
  rcases lt_or_ge cut kStreamHeaderBytes with hcut | hcut
  · -- Nothing decodes, and there is no whole record.
    have hwithin : within encodeRecord (cut - front.length) records = [] := by
      cases records with
      | nil => rfl
      | cons r records =>
        have hrecord := hlength r
        rw [within, if_neg]
        rw [kStreamHeaderBytes] at hcut
        omega
    rw [hwithin, streamBody_take_lt hcut, scan_eq_steps]
    have hshort : tryDecode ((front ++ records.flatMap encodeRecord).take cut) = none := by
      rw [tryDecode, if_pos]
      exact (length_take_le _ _).trans_lt (hcut.trans (by decide))
    generalize (front ++ records.flatMap encodeRecord).take cut = image at hshort
    cases image.length with
    | zero => rfl
    | succ fuel => rw [RecordStream.front, hshort]
  · rw [streamBody_take hfront records hcut]
    refine RecordStream.scan_take_flatMap
      (fun r hr rest ↦ tryDecode_encodeRecord (hfits r hr) rest)
      (fun r hr _ hlt ↦ tryDecode_take (hfits r hr) hlt) rfl ?_ _
    exact length_within_le (fun r _ ↦ lt_of_lt_of_le (by decide) (hlength r)) _

end Cut

end Lockstep.Storage
