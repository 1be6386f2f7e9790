import Rivloom.Collaboration.Wire
import Rivloom.Collaboration.Node
import Rivloom.Lib.CodecSize

/-!
# What is shown fits

The limits on lengths were written in four places: a message takes at most 32 KiB, a page
and a response at most 64 KiB, a view at most 3 MiB, with at most 64 members, nodes and
tasks. This file shows that they agree. Whatever passes the check on a record is bounded
by its kind (`Rivloom.Collaboration.SharedData.weight`), and so a page that passes the
check on pages can always be written and sent
(`Rivloom.Collaboration.Response.page_encode_decode`), and a view with no more than 64
records of a kind is never too large (`Rivloom.Collaboration.View.bytes_le`).

One bound is not crude. A view holds 64 announcements of nodes besides 64 tasks, and if
each of them were as long as a message may be, the view would not fit: it matters that an
announcement only holds identifiers, which need no escapes, and one short text.
-/

namespace Rivloom.Collaboration

open Codec (list option size_bool_le size_option_le size_string size_struct_le size_tagged
  size_uint_le toBytes uint)

variable {page : Page} {revision : ℕ} {data : SharedData} {v : Protocol.Node}

open Json (quoteSize)

theorem Protocol.quoteSize_id_le {value : String} (h : Protocol.id value = true) :
    quoteSize value ≤ 130 := by
  have hplain : ∀ c ∈ value.toList, Json.escape c = [c] := by
    intro c hc
    simp only [Protocol.id, Bool.and_eq_true, List.all_eq_true, Bool.or_eq_true, beq_iff_eq] at h
    exact Json.escape_of_idChar (or_assoc.mp (h.2 c hc))
  have := Protocol.utf8ByteSize_of_id h
  rw [Json.quoteSize_of_plain hplain]
  omega

theorem Protocol.size_timestamp_le {value : ℤ} (h : Protocol.timestamp value = true) :
    (Protocol.i64.enc value).size ≤ 12 := by
  rw [Protocol.timestamp_iff] at h
  exact Codec.size_sint_le (by decide) h.1 (by omega)

theorem Protocol.size_revision_le (h : revision ≤ maxRevision) :
    (Protocol.u64.enc revision).size ≤ 16 := by
  have hmax : maxRevision = 9007199254740991 := rfl
  exact size_uint_le (by decide) (by omega)

theorem Message.size_le (message : Message) :
    (Message.codec.enc message).size ≤ maxMessageBytes := by
  have h := message.fits
  rwa [toBytes, Json.size_bytes] at h

theorem Protocol.Node.size_le (h : (Payload.node v).valid = true) :
    (Protocol.Node.codec.enc v).size ≤ 1400 := by
  simp only [Payload.valid, List.all_cons, List.all_nil, Bool.and_true, Bool.and_eq_true,
    decide_eq_true_eq] at h
  obtain ⟨⟨⟨⟨hnode, hmember, hdevice⟩, hversion⟩, hcapabilities⟩, -⟩ := h
  have hnode := quoteSize_id_le hnode
  have hmember := quoteSize_id_le hmember
  have hdevice := quoteSize_id_le hdevice
  have hversion : quoteSize v.runtimeVersion ≤ 770 := by
    simp only [text, Bool.and_eq_true, decide_eq_true_eq] at hversion
    have := Json.quoteSize_le v.runtimeVersion
    omega
  have hruntime : (RuntimeId.codec.enc v.runtimeId).size ≤ 7 := by
    cases v.runtimeId
    decide
  have hlist : ((list Capability.codec).enc v.capabilities).size ≤ 50 := by
    refine (Codec.size_list_le (w := 11) fun c _ => ?_).trans (by omega)
    cases c <;> decide
  refine size_struct_le (n := 100) _ _ (by decide) _ (by decide) ?_
  simp only [Codec.Fields.valuesSize, Equiv.coe_fn_mk, size_string]
  omega

theorem Protocol.Payload.size_node_le (h : (Payload.node v).valid = true) :
    (Payload.codec.enc (.node v)).size ≤ 1430 := by
  have hnode := Protocol.Node.size_le h
  have hnames : quoteSize "type" + quoteSize "node" + quoteSize "data" = 18 := by decide
  have htagged := size_tagged "type" "data" (by decide) Payload.variants (.node v)
  change _ = 5 + quoteSize "type" + quoteSize "node" + quoteSize "data" +
    (Protocol.Node.codec.enc v).size at htagged
  rw [Payload.codec]
  omega

/-- **An announcement is short.** -/
theorem Message.size_node_le {message : Message} {nodeId memberId deviceId : String}
    (h : message.admission.payload = .node nodeId memberId deviceId) :
    (Message.codec.enc message).size ≤ 2200 := by
  obtain ⟨hversion, ⟨hmessage, hkey, hbrain, hsender⟩, hsent, hrevision, hpayload⟩ :=
    message.envelope_valid
  have hnode : (Protocol.Payload.codec.enc message.envelope.payload).size ≤ 1430 := by
    simp only [admission] at h
    cases hp : message.envelope.payload with
    | node v =>
      rw [hp] at hpayload
      exact Protocol.Payload.size_node_le hpayload
    | _ =>
      rw [hp] at h
      cases h
  have hmessage := Protocol.quoteSize_id_le hmessage
  have hkey := Protocol.quoteSize_id_le hkey
  have hbrain := Protocol.quoteSize_id_le hbrain
  have hsender := Protocol.quoteSize_id_le hsender
  have hsent := Protocol.size_timestamp_le hsent
  have hrevision := Protocol.size_revision_le hrevision
  have hversion : ((uint 32).enc message.envelope.protocolVersion).size ≤ 1 := by
    rw [hversion]
    exact size_uint_le (by decide) (by decide)
  refine size_struct_le (n := 120) _ _ (by decide) _ (by decide) ?_
  simp only [Codec.Fields.valuesSize, Equiv.coe_fn_mk, size_string]
  omega

/-! ### Shared records -/

namespace SharedData

/-- A bound on what a record takes, by its kind. -/
def weight : SharedData → ℕ
  | .member .. => 1000
  | .node .. => 3000
  | .task .. => 33200

/-- **What a record says is of bounded size**, by its kind, if it passes the check. -/
theorem size_le (h : page.dataValid revision data = true) :
    (codec.enc data).size ≤ data.weight := by
  have hkeys : quoteSize "type" + quoteSize "data" = 12 := by decide
  cases data with
  | member memberId identityId name owner revoked =>
    simp only [Page.dataValid, Bool.and_eq_true] at h
    obtain ⟨⟨hmember, hidentity⟩, hname⟩ := h
    have hmember := Protocol.quoteSize_id_le hmember
    have hidentity := Protocol.quoteSize_id_le hidentity
    have hname : quoteSize name ≤ 482 := by
      simp only [displayName, Bool.and_eq_true, decide_eq_true_eq] at hname
      have := Json.quoteSize_le name
      omega
    have howner := size_bool_le owner
    have hrevoked := size_bool_le revoked
    have hdata : (memberCodec.enc (memberId, identityId, name, owner, revoked, ())).size ≤ 820 := by
      refine size_struct_le (n := 61) _ _ (by decide) _ (by decide) ?_
      simp only [Codec.Fields.valuesSize, Equiv.refl_apply, size_string]
      omega
    have hword : quoteSize "member" = 8 := by decide
    have htagged := size_tagged "type" "data" (by decide) variants
      (.member memberId identityId name owner revoked)
    change _ = 5 + quoteSize "type" + quoteSize "member" + quoteSize "data" +
      (memberCodec.enc (memberId, identityId, name, owner, revoked, ())).size at htagged
    rw [codec, weight]
    omega
  | node nodeId memberId deviceId online lastSeenAt announcement =>
    simp only [Page.dataValid, Bool.and_eq_true, Option.all_eq_true] at h
    obtain ⟨⟨⟨⟨⟨hnode, hmember⟩, hdevice⟩, -⟩, hseen⟩, hannouncement⟩ := h
    have hnode := Protocol.quoteSize_id_le hnode
    have hmember := Protocol.quoteSize_id_le hmember
    have hdevice := Protocol.quoteSize_id_le hdevice
    have honline := size_bool_le online
    have hseen : ((option Protocol.i64 Protocol.enc_i64_ne_null).enc lastSeenAt).size
        ≤ 12 := size_option_le (by decide) fun seen hs =>
      Protocol.size_timestamp_le (hseen seen hs)
    have hannouncement : ((option Message.codec Message.enc_ne_null).enc announcement).size
        ≤ 2200 := by
      refine size_option_le (by decide) fun message hm => ?_
      have hvalid := hannouncement message hm
      simp only [Page.announcementValid, Bool.and_eq_true, beq_iff_eq] at hvalid
      exact Message.size_node_le hvalid.2
    have hdata : (nodeCodec.enc (nodeId, memberId, deviceId, online, lastSeenAt, announcement,
        ())).size ≤ 2700 := by
      refine size_struct_le (n := 80) _ _ (by decide) _ (by decide) ?_
      simp only [Codec.Fields.valuesSize, Equiv.refl_apply, size_string]
      omega
    have hword : quoteSize "node" = 6 := by decide
    have htagged := size_tagged "type" "data" (by decide) variants
      (.node nodeId memberId deviceId online lastSeenAt announcement)
    change _ = 5 + quoteSize "type" + quoteSize "node" + quoteSize "data" +
      (nodeCodec.enc (nodeId, memberId, deviceId, online, lastSeenAt, announcement, ())).size
      at htagged
    rw [codec, weight]
    omega
  | task taskId status source =>
    simp only [Page.dataValid, Bool.and_eq_true] at h
    have htask := Protocol.quoteSize_id_le h.1.1.1
    have hsource := source.size_le
    have hmax : maxMessageBytes = 32768 := rfl
    have hstatus : (TaskStatus.codec.enc status).size ≤ 16 := by
      cases status <;> decide
    have hdata : (taskCodec.enc (taskId, status, source, ())).size ≤ 32950 := by
      refine size_struct_le (n := 30) _ _ (by decide) _ (by decide) ?_
      simp only [Codec.Fields.valuesSize, Equiv.refl_apply, size_string]
      omega
    have hword : quoteSize "task" = 6 := by decide
    have htagged := size_tagged "type" "data" (by decide) variants
      (.task taskId status source)
    change _ = 5 + quoteSize "type" + quoteSize "task" + quoteSize "data" +
      (taskCodec.enc (taskId, status, source, ())).size at htagged
    rw [codec, weight]
    omega

end SharedData

theorem SharedRecord.size_le {record : SharedRecord}
    (h : page.dataValid record.revision record.data = true)
    (hrevision : record.revision ≤ maxRevision) :
    (SharedRecord.codec.enc record).size ≤ record.data.weight + 50 := by
  have hdata := SharedData.size_le h
  have hrevision := Protocol.size_revision_le hrevision
  refine size_struct_le (n := 20) _ _ (by decide) _ (by decide) ?_
  simp only [Codec.Fields.valuesSize, Equiv.coe_fn_mk]
  omega

/-! ### Pages and responses -/

namespace Page

/-- **A page that passes the check fits into a frame**, with room to spare. -/
theorem size_le (h : page.validate = .ok ()) : (codec.enc page).size ≤ 33700 := by
  obtain ⟨hheader, hrecords⟩ := validate_eq_ok.mp h
  have hversion : ((uint 32).enc page.version).size ≤ 1 := by
    rw [hheader.version]
    exact size_uint_le (by decide) (by decide)
  have hbrain := Protocol.quoteSize_id_le hheader.brainId
  have hmember := Protocol.quoteSize_id_le hheader.memberId
  have hafter := Protocol.size_revision_le (hheader.after_le.trans hheader.revision_le)
  have hrevision := Protocol.size_revision_le hheader.revision_le
  have hmax : maxSharedRecords = 192 := rfl
  have hoffset : ((uint 16).enc page.offset).size ≤ 3 :=
    size_uint_le (by decide) (by have := hheader.offset_lt; omega)
  have hnext : ((option (.uint 16) (Protocol.enc_uint_ne_null _)).enc page.next).size ≤ 4 :=
    size_option_le (by decide) fun next hn =>
      size_uint_le (by decide) (by have := (hheader.next next hn).2; omega)
  have hlist : ((list SharedRecord.codec).enc page.records).size ≤ 33253 := by
    have hlength := hheader.length_le
    refine (Codec.size_list_le (w := 33250) fun record hrecord => ?_).trans (by omega)
    have hrecord := hrecords record hrecord
    simp only [recordValid, Bool.and_eq_true, decide_eq_true_eq] at hrecord
    have hsize := SharedRecord.size_le hrecord.2 (hrecord.1.2.trans hheader.revision_le)
    have hweight : record.data.weight ≤ 33200 := by
      cases record.data <;> simp [SharedData.weight]
    omega
  refine size_struct_le (n := 90) _ _ (by decide) _ (by decide) ?_
  simp only [Codec.Fields.valuesSize, Equiv.coe_fn_mk, size_string]
  omega

theorem data_ok (h : page.dataValid revision data = true) : SharedData.codec.ok data := by
  cases data with
  | member memberId identityId name owner revoked =>
    exact ⟨trivial, trivial, trivial, trivial, trivial, trivial⟩
  | node nodeId memberId deviceId online lastSeenAt announcement =>
    simp only [dataValid, Bool.and_eq_true, Option.all_eq_true] at h
    exact ⟨trivial, trivial, trivial, trivial,
      fun seen hs => Protocol.i64_ok_of_timestamp (h.1.2 seen hs),
      fun message _ => message.codec_ok, trivial⟩
  | task taskId status source => exact ⟨trivial, trivial, source.codec_ok, trivial⟩

theorem codec_ok (h : page.validate = .ok ()) : codec.ok page := by
  obtain ⟨hheader, hrecords⟩ := validate_eq_ok.mp h
  have hmax : maxRevision < 2 ^ 64 := by decide
  have hshared : maxSharedRecords = 192 := rfl
  have hafter := hheader.after_le
  have hrevision := hheader.revision_le
  have hoffset := hheader.offset_lt
  refine ⟨?_, trivial, trivial, ?_, ?_, ?_, fun next hn => ?_, fun record hrecord => ?_, trivial⟩
  · change page.version < 2 ^ 32
    rw [hheader.version]
    decide
  · change page.after < 2 ^ 64
    omega
  · change page.atRevision < 2 ^ 64
    omega
  · change page.offset < 2 ^ 16
    omega
  · have := (hheader.next next hn).2
    change next < 2 ^ 16
    omega
  · have hrecord := hrecords record hrecord
    simp only [recordValid, Bool.and_eq_true, decide_eq_true_eq] at hrecord
    refine ⟨?_, data_ok hrecord.2, trivial⟩
    change record.revision < 2 ^ 64
    omega

theorem encode_eq_ok (h : page.validate = .ok ()) : page.encode = .ok (codec.toBytes page) := by
  have hsize : (codec.toBytes page).size ≤ maxControlBytes := by
    rw [toBytes, Json.size_bytes]
    exact (size_le h).trans (by decide)
  simp only [encode, h, bind, Except.bind, if_neg (Nat.not_lt.mpr hsize)]
  rfl

end Page

/-- **A page that passes the check arrives**: the response that holds it is written, and
read as it was. -/
theorem Response.page_encode_decode {id : String} (h : page.validate = .ok ())
    (hid : Protocol.id id = true) :
    ∃ bytes, Response.encode ⟨1, id, .page page⟩ = .ok bytes ∧
      Response.decode bytes id = .ok ⟨1, id, .page page⟩ := by
  have hpage := Page.size_le h
  have hreply : (Reply.codec.enc (.page page)).size ≤ 33740 := by
    have hnames : quoteSize "type" + quoteSize "page" + quoteSize "data" = 18 := by decide
    have htagged := size_tagged "type" "data" (by decide) Reply.variants (.page page)
    change _ = 5 + quoteSize "type" + quoteSize "page" + quoteSize "data" +
      (Page.codec.enc page).size at htagged
    rw [Reply.codec]
    omega
  have hsize : (Response.codec.enc ⟨1, id, .page page⟩).size ≤ maxControlBytes := by
    have hversion : ((uint 32).enc 1).size ≤ 1 := size_uint_le (by decide) (by decide)
    have hquote := Protocol.quoteSize_id_le hid
    refine le_trans (size_struct_le (N := 34000) (n := 40) _ _ (by decide) _
      (by decide) ?_) (by decide)
    simp only [Codec.Fields.valuesSize, Equiv.coe_fn_mk, size_string]
    omega
  refine Response.encode_decode ⟨?_, trivial, Page.codec_ok h, trivial⟩ ?_ rfl hid ?_
  · change 1 < 2 ^ 32
    decide
  · rwa [toBytes, Json.size_bytes]
  · rw [Reply.pageValid, h]
    rfl

/-! ### Views -/

namespace View

theorem size_eq_counts (records : StrMap SharedRecord) :
    records.size = count records isMember + count records isNode + count records isTask := by
  rw [← Std.ExtTreeMap.length_toList]
  unfold count
  induction records.toList with
  | nil => rfl
  | cons e l ih =>
    simp only [List.filter_cons, List.length_cons, ih]
    cases hdata : e.2.data <;> simp only [isMember, isNode, isTask, hdata] <;> simp <;> omega

/-- What the records may take, from how many there are of each kind. -/
theorem sum_weight (l : List (String × SharedRecord)) :
    (l.map fun e => e.2.data.weight + 200).sum =
      1200 * (l.filter fun e => isMember e.2).length + 3200 *
        (l.filter fun e => isNode e.2).length +
        33400 * (l.filter fun e => isTask e.2).length := by
  induction l with
  | nil => rfl
  | cons e l ih =>
    simp only [List.map_cons, List.sum_cons, List.filter_cons, ih]
    cases hdata : e.2.data <;> simp only [isMember, isNode, isTask, hdata, SharedData.weight] <;>
      simp <;> omega

theorem quoteSize_key_le (h : page.dataValid revision data = true) : quoteSize data.key ≤ 137 := by
  have hwords : quoteSize "member:" = 9 ∧ quoteSize "node:" = 7 ∧ quoteSize "task:" = 7 := by
    decide
  have hid : ∀ {name id : String}, Protocol.id id = true →
      quoteSize (name ++ id) ≤ quoteSize name + 128 := by
    intro name id hid
    have := Protocol.quoteSize_id_le hid
    have := Json.quoteSize_append name id
    omega
  cases data with
  | member memberId identityId name owner revoked =>
    simp only [Page.dataValid, Bool.and_eq_true] at h
    have := @hid "member:" _ h.1.1
    rw [SharedData.key]
    omega
  | node nodeId memberId deviceId online lastSeenAt announcement =>
    simp only [Page.dataValid, Bool.and_eq_true] at h
    have := @hid "node:" _ h.1.1.1.1.1
    rw [SharedData.key]
    omega
  | task taskId status source =>
    simp only [Page.dataValid, Bool.and_eq_true] at h
    have := @hid "task:" _ h.1.1.1
    rw [SharedData.key]
    omega

/-- **A view with at most 64 records of each kind is not too large.** -/
theorem bytes_le {records : StrMap SharedRecord}
    (h : ∀ (key : String) record, records[key]? = some record → record.key = key ∧
      record.revision ≤ maxRevision ∧ ∃ page : Page, page.dataValid record.revision
        record.data = true)
    (hmembers : count records isMember ≤ 64) (hnodes : count records isNode ≤ 64)
    (htasks : count records isTask ≤ 64) : (recordsJson records).bytes.size ≤ maxViewBytes := by
  have hmembersSize : Json.membersSize
      (records.toList.map fun e => (e.1, SharedRecord.codec.enc e.2)) ≤
      (records.toList.map fun e => e.2.data.weight + 200).sum := by
    refine Json.membersSize_map_le fun e he => ?_
    obtain ⟨hkey, hrevision, page, hvalid⟩ := h e.1 e.2 (StrMap.mem_toList.mp he)
    have hsize := SharedRecord.size_le hvalid hrevision
    have hquote := quoteSize_key_le hvalid
    rw [← SharedRecord.key, hkey] at hquote
    change 2 + quoteSize e.1 + (SharedRecord.codec.enc e.2).size ≤ e.2.data.weight + 200
    omega
  have hsum := sum_weight records.toList
  unfold count at hmembers hnodes htasks
  have hobj := Json.size_obj_le (records.toList.map fun e => (e.1, SharedRecord.codec.enc e.2))
  have hmax : maxViewBytes = 3145728 := rfl
  rw [Json.size_bytes, recordsJson]
  omega

end View

end Rivloom.Collaboration
