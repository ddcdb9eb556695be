import EntityTable.Proofs.Json.Rendering
import EntityTable.Proofs.Storage.Writing

/-!
What a write leaves in a file reads back as the value that was written, up to the order of keys if
they were sorted. Only a high surrogate right before a low one does not: their escapes are read as
one code point.
-/

namespace EntityTable

namespace Json

/-! ### Values that were read, in the order in which they are written -/

theorem ofKeys_readable : OfKeys Readable where
  array _ _ _ := trivial
  object _ _ hperm h := hperm.nodup_iff.mp h

theorem ofKeys_surrogatesApart : OfKeys SurrogatesApart where
  array _ _ _ := trivial
  object _ _ hperm h := fun key hk => h key (hperm.mem_iff.mpr hk)

theorem legible_of_reordered {source : Text} {v w : Json} (hread : read source = .ok v)
    (hapart : v.Throughout SurrogatesApart) (hr : Reordered v w) (hfinite : w.nonFinite = []) :
    w.Throughout Legible := by
  have hreadable : w.Throughout Readable :=
    Throughout.reordered ofKeys_readable hr (readable_of_read hread)
  have hsame : w.Throughout SurrogatesApart :=
    Throughout.reordered ofKeys_surrogatesApart hr hapart
  have hall := (hreadable.and (throughout_finiteNumber hfinite)).and hsame
  exact hall.imp fun _ h => ⟨h.1.1, h.1.2, h.2⟩

end Json

namespace Storage

/-- Different spellings of one path do not lead to different files. -/
theorem read_unique {tree : FileTree} (hw : tree.WellPlaced) {path other : Text}
    (hpath : Path.ofText path = Path.ofText other) {bytes bytes' : List UInt8}
    (h : tree.read path = .ok bytes) (h' : tree.read other = .ok bytes') : bytes = bytes' := by
  obtain ⟨-, place, hplace, hnode⟩ := FileTree.read_eq_ok_iff.mp h
  obtain ⟨-, place', hplace', hnode'⟩ := FileTree.read_eq_ok_iff.mp h'
  have hsame : place = place' := by
    rw [FileTree.placeOf_eq_ok hw hplace, FileTree.placeOf_eq_ok hw hplace', hpath]
  rw [hsame, hnode'] at hnode
  exact (FileNode.file.inj (Option.some.inj hnode)).symm

/-- A file has a value in a format, under every spelling of its path that can be read. -/
structure ReadsBack (tree : FileTree) (target : Path) (format : Format) (v : Json) : Prop where
  /-- The path as it is printed can be read. -/
  found : ∃ bytes, tree.read target.toText = .ok bytes
  decodes : ∀ path bytes, Path.ofText path = target → tree.read path = .ok bytes →
    ∃ text, Text.ofUtf8 bytes = .ok text ∧ Json.read text.unifyNewlines = .ok (format.arrange v)
  /-- Nothing but the order of keys may differ. -/
  reordered : v.Reordered (format.arrange v)
  kept : format.sortKeys = false → format.arrange v = v
  /-- Loading the file is as good as taking the value for an authored table. -/
  loads : format.sortKeys = false → ∀ path bytes, Path.ofText path = target →
    tree.read path = .ok bytes →
      loadTable tree path = (Authored.Table.ofJson v).mapError .uncompiled

theorem loadTable_of_decodes {tree : FileTree} {path text : Text} {bytes : List UInt8} {v : Json}
    (hbytes : tree.read path = .ok bytes) (htext : Text.ofUtf8 bytes = .ok text)
    (hread : Json.read text.unifyNewlines = .ok v) :
    loadTable tree path = (Authored.Table.ofJson v).mapError .uncompiled := by
  rw [loadTable, hbytes]
  show ((Text.ofUtf8 bytes).mapError _ >>= _) = _
  rw [htext]
  show ((Json.read text.unifyNewlines).mapError _ >>= _) = _
  rw [hread]
  rfl

section Written

variable {tree later : FileTree} {target : Path} {format : Format} {v : Json}

theorem readsBack_of_replaces (hw : tree.WellPlaced) (ht : target.Plain) {layout : Json.Layout}
    (hlegible : (format.arrange v).Throughout Json.Legible)
    (h : tree.Replaces later target.toText (format.encode layout v)) :
    ReadsBack later target format v := by
  obtain ⟨hutf8, hnewlines, hread⟩ := Json.read_render hlegible layout
  have hplaced : later.WellPlaced := by rwa [FileTree.WellPlaced, h.workingDirectory]
  have hdecodes (path : Text) (bytes : List UInt8) (hpath : Path.ofText path = target)
      (hbytes : later.read path = .ok bytes) : ∃ text, Text.ofUtf8 bytes = .ok text ∧
        Json.read text.unifyNewlines = .ok (format.arrange v) := by
    have hspelled : Path.ofText path = Path.ofText target.toText := by
      rw [Path.ofText_toText ht, hpath]
    obtain rfl := read_unique hplaced hspelled hbytes h.read
    exact ⟨_, hutf8, hnewlines.symm ▸ hread⟩
  have hkept (hsort : format.sortKeys = false) : format.arrange v = v := by
    rw [Format.arrange, hsort, if_neg Bool.false_ne_true]
  refine ⟨⟨_, h.read⟩, hdecodes, format.reordered_arrange v, hkept, ?_⟩
  intro hsort path bytes hpath hbytes
  obtain ⟨text, htext, htree⟩ := hdecodes path bytes hpath hbytes
  exact loadTable_of_decodes hbytes htext (hkept hsort ▸ htree)

end Written

/-- A value that was read from some text, and written, reads back from the file. -/
theorem writeJson_readsBack (memory : Memory) (tree : FileTree) (hw : tree.WellPlaced)
    (target : Text) (format : Format) (source : Text) (members : Entries Json)
    (hread : Json.read source = .ok (.object members))
    (hapart : (Json.object members).Throughout Json.SurrogatesApart)
    (hwritten :
      (writeJson memory tree (.ofText target) format (.object members)).result.outcome = .ok ()) :
    ReadsBack (writeJson memory tree (.ofText target) format (.object members)).tree
      (.ofText target) format (.object members) := by
  obtain ⟨layout, writable, hreplaces⟩ := writeJson_eq_ok hw (Path.plain_ofText target) hwritten
  have hreordered := format.reordered_arrange (.object members)
  have hfinite : (format.arrange (.object members)).nonFinite = [] := by
    refine List.eq_nil_iff_forall_not_mem.mpr fun x hx => ?_
    exact writable _ (.notFinite (hreordered.symm.mem_nonFinite hx))
  have hlegible := Json.legible_of_reordered hread hapart hreordered hfinite
  exact readsBack_of_replaces hw (Path.plain_ofText target) hlegible hreplaces

/-- An object with one key. -/
def entryOf (key : Text) : Json := .object [(key, .null)]

theorem read_entryOf {source key : Text} (h : (match Json.read source with
    | .ok (.object [(k, .null)]) => decide (k = key)
    | _ => false) = true) : Json.read source = .ok (entryOf key) := by
  split at h
  · next hread => rw [hread, of_decide_eq_true h, entryOf]
  · cases h

theorem ok_of_isOk {x : Except Failure Unit} (h : x.isOk = true) : x = .ok () := by
  cases x with
  | error e => cases h
  | ok => rfl

/-- A quote, a low surrogate alone and a line break. -/
def scrawl : Text := [CodePoint.doubleQuote, CodePoint.ofNat 0xDC00, CodePoint.ofNat 0x0A]

theorem readsBack_scrawl :
    Json.read "\x7b \"\\\"\\udc00\\n\" : null \x7d" = .ok (entryOf scrawl) ∧
    ReadsBack
      (writeJson mebibyte quayside "raw.json" ⟨some (.columns 2), true⟩ (entryOf scrawl)).tree
      "raw.json" ⟨some (.columns 2), true⟩ (entryOf scrawl) := by
  have hread : Json.read "\x7b \"\\\"\\udc00\\n\" : null \x7d" = .ok (entryOf scrawl) :=
    read_entryOf (by decide +kernel)
  have hapart : (entryOf scrawl).Throughout Json.SurrogatesApart :=
    Json.Throughout.object_iff.mpr ⟨List.forall_mem_singleton.mpr (by decide),
      List.forall_mem_singleton.mpr (.intro trivial (List.forall_mem_nil _))⟩
  have hwritten := ok_of_isOk (x := (writeJson mebibyte quayside "raw.json"
    ⟨some (.columns 2), true⟩ (entryOf scrawl)).result.outcome) (by decide +kernel)
  exact ⟨hread, writeJson_readsBack mebibyte quayside wellPlaced_quayside "raw.json"
    ⟨some (.columns 2), true⟩ _ [(scrawl, .null)] hread hapart hwritten⟩

/-- A key of two surrogates that are written on their own. -/
def torn : Text := [CodePoint.ofNat 0xD800, CodePoint.ofNat 0xDC00]

/-- It comes back as one code point. And a path with a slash at its end is written without the slash
and cannot be read with it. -/
theorem writeJson_loses :
    Json.read (Text.concat ["\x7b\"", [CodePoint.ofNat 0xD800], "\\udc00\":null\x7d"]) =
      .ok (entryOf torn) ∧
    (writeJson mebibyte quayside "all.json" ⟨none, false⟩ (entryOf torn)).result.outcome = .ok () ∧
    ¬ReadsBack (writeJson mebibyte quayside "all.json" ⟨none, false⟩ (entryOf torn)).tree "all.json"
      ⟨none, false⟩ (entryOf torn) ∧
    (writeJson mebibyte quayside "all.json/" ⟨none, false⟩ (.object [])).result.outcome = .ok () ∧
    (writeJson mebibyte quayside "all.json/" ⟨none, false⟩ (.object [])).tree.read "all.json/" =
      .error (.answered .notDirectory "all.json/") := by
  refine ⟨read_entryOf (by decide +kernel), ok_of_isOk (by decide +kernel), fun h => ?_,
    ok_of_isOk (by decide +kernel), by decide +kernel⟩
  have hfile : (writeJson mebibyte quayside "all.json" ⟨none, false⟩
      (entryOf torn)).tree.read "all.json" =
        .ok (Text.toUtf8 "\x7b\"\\ud800\\udc00\":null\x7d") := by decide +kernel
  have hdecode : Text.ofUtf8 (Text.toUtf8 "\x7b\"\\ud800\\udc00\":null\x7d") =
      .ok "\x7b\"\\ud800\\udc00\":null\x7d" := Text.ofUtf8_toUtf8 (by decide)
  have hread : Json.read (Text.ofString "\x7b\"\\ud800\\udc00\":null\x7d").unifyNewlines =
      .ok (entryOf [CodePoint.ofNat 0x10000]) := read_entryOf (by decide +kernel)
  obtain ⟨text, htext, hsame⟩ := h.decodes "all.json" _ rfl hfile
  obtain rfl := Except.ok.inj (hdecode.symm.trans htext)
  rw [hread] at hsame
  have hkeys := Json.object.inj (Except.ok.inj hsame)
  exact absurd (congrArg Entries.keys hkeys) (by decide)

end Storage
end EntityTable
