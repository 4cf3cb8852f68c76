/-
The status of a response outside 2xx reaches the caller of `R`.

# What holds

`keepsStatus_iff_intact`: `R` returns `ErrNotModified` or an `APIError` with
the status and the start of the body if and only if the body is not
labelled gzip, or the header of the gzip body is wrong, or the body decodes
without damage, or more than 64 KiB of it decode before the damage
(`Intact`; at 64 KiB it depends on the read that reports the damage). The
readers may cut the bytes as they like, and the decoder may have read
any part of the body before its header turned out to be wrong.

# What does not

Only the header of a gzip body is tried before the label is removed. If
what follows it is truncated or corrupt, the damage fails the read of the
body, the read fails `Execute`, and `R` returns `api call failed` without
the status (`callResult_damaged`). `truncatedPage` is such a response.
-/
import Tokyo3Base.Api.ErrorBody
import Tokyo3Base.Go.Proofs.Stream

namespace Tokyo3Base.Api

open Go

/-- What a body decodes to: the bytes before any damage, and how they end. A
gzip body with a wrong header has no bytes that decode. -/
def Response.decoded (inflate : Inflate) (resp : Response) :
    Stream GzipError :=
  if isGzip resp.contentEncoding then
    match readHeader resp.body with
    | .error err => ⟨[], .failed err⟩
    | .ok members => gunzip inflate members
  else ⟨resp.body, .eof⟩

/-- The result tells the status: `ErrNotModified`, or an `APIError` with at
most 64 KiB of the body. -/
def KeepsStatus (inflate : Inflate) (resp : Response)
    (result : Option CallResult) : Prop :=
  resp.statusCode = 304 ∧ result = some .notModified
    ∨ resp.statusCode ≠ 304 ∧ ∃ body,
        result = some (.apiError resp.statusCode body)
          ∧ body.length ≤ apiErrorBodyLimit
          ∧ (body <+: (resp.decoded inflate).data ∨ body <+: resp.body)
          ∧ ((resp.decoded inflate).fin = .eof →
              body = (resp.decoded inflate).data.take apiErrorBodyLimit)

/-- A gzip body whose header is right has no damage before the limit: none
at all, or one that comes after more bytes than the limit or, at the limit,
not together with them. -/
def Intact (inflate : Inflate) (pace : Pace) (resp : Response) : Prop :=
  isGzip resp.contentEncoding → ∀ members,
    readHeader resp.body = .ok members →
      (gunzip inflate members).fin = .eof
        ∨ (Body.mk (gunzip inflate members)
            (some apiErrorBodyLimit)).Hidden pace

-- ==== what Resty reads

theorem not_isGzip_nil : ¬ isGzip [] := by decide

section Body

variable {inflate : Inflate} {reading : Reading} {resty : Resty}
  {resp : Response}

/-- No response outside 2xx is decoded a second time. -/
theorem body_roundTrip (hstatus : ¬ isSuccess resp.statusCode) :
    resty.body (roundTrip inflate reading resp)
      = .ok (roundTrip inflate reading resp).body := by
  refine resty.plain _ ?_
  rintro ⟨hlabel, hlength⟩
  simp only [roundTrip] at hlabel hlength
  split at hlabel
  · next h =>
    rw [if_pos h] at hlength
    exact hlength (h.resolve_left hstatus)
  · split at hlabel
    · -- the label is gone in each of the three cases
      split at hlabel <;> exact not_isGzip_nil hlabel
    · next hnot => exact hnot hlabel

/-- The body that Resty reads: raw bytes, with a reader that does not fail,
or what a gzip body with a right header decodes to. -/
theorem roundTrip_body (hstatus : ¬ isSuccess resp.statusCode) :
    (∃ raw limit, (roundTrip inflate reading resp).body
          = ⟨⟨raw, .eof⟩, limit⟩
        ∧ raw <+: resp.body
        ∧ ((resp.decoded inflate).fin = .eof →
          (resp.decoded inflate).data = raw)
        ∧ ∀ n, limit = some n → n = apiErrorBodyLimit)
      ∨ isGzip resp.contentEncoding ∧ ∃ members,
        readHeader resp.body = .ok members
          ∧ resp.decoded inflate = gunzip inflate members
          ∧ (roundTrip inflate reading resp).body
            = ⟨gunzip inflate members, some apiErrorBodyLimit⟩ := by
  by_cases hlength : resp.contentLength = 0
  · refine .inl ⟨resp.body, none, ?_, List.prefix_refl _, ?_, nofun⟩
    · simp only [roundTrip, if_pos (Or.inr hlength)]
    · -- an empty body that is labelled gzip has no header
      unfold Response.decoded
      rw [resp.no_body hlength]
      split
      · exact nofun
      · exact fun _ => rfl
  · have hpass : ¬ (isSuccess resp.statusCode ∨ resp.contentLength = 0) :=
      not_or.mpr ⟨hstatus, hlength⟩
    simp only [roundTrip, if_neg hpass, Response.decoded]
    by_cases hgzip : isGzip resp.contentEncoding
    · simp only [if_pos hgzip]
      cases hheader : readHeader resp.body with
      | ok members => exact .inr ⟨hgzip, members, rfl, rfl, rfl⟩
      | error err =>
          -- without a byte nothing is replayed, otherwise all of the body
          cases err with
          | eof => exact .inl ⟨[], none, rfl, List.nil_prefix, nofun, nofun⟩
          | _ =>
              refine .inl ⟨_, _, rfl, ?_, nofun, ?_⟩
              · exact ⟨[], (List.append_nil _).trans
                  (List.take_append_drop _ _)⟩
              · rintro n ⟨⟩
                rfl
    · simp only [if_neg hgzip]
      refine .inl ⟨_, _, rfl, List.prefix_refl _, fun _ => rfl, ?_⟩
      rintro n ⟨⟩
      rfl

/-- `R` returns the start of a body that Resty could read. -/
theorem callResult_apiError {body : GoString}
    (hstatus : ¬ isSuccess resp.statusCode) (hne : resp.statusCode ≠ 304)
    (h : execute inflate reading resty resp = some (.ok body)) :
    callResult inflate reading resty resp = some (.apiError resp.statusCode
      (body.take apiErrorBodyLimit)) := by
  have hcut : (if apiErrorBodyLimit < body.length then
      body.take apiErrorBodyLimit else body) = body.take apiErrorBodyLimit := by
    split
    · rfl
    · next hshort =>
      exact (List.take_of_length_le (Nat.le_of_not_lt hshort)).symm
  simp only [callResult, h, Option.map_some, if_neg hne, if_pos hstatus, hcut]

/-- From what Resty could read to what `R` returns. -/
theorem keepsStatus_of_execute {body : GoString}
    (hstatus : ¬ isSuccess resp.statusCode)
    (h : execute inflate reading resty resp = some (.ok body))
    (hpart : body <+: (resp.decoded inflate).data ∨ body <+: resp.body)
    (hwhole : (resp.decoded inflate).fin = .eof →
      body.take apiErrorBodyLimit
        = (resp.decoded inflate).data.take apiErrorBodyLimit) :
    KeepsStatus inflate resp (callResult inflate reading resty resp) := by
  by_cases hne : resp.statusCode = 304
  · refine .inl ⟨hne, ?_⟩
    simp only [callResult, h, Option.map_some, if_pos hne]
  · have hstart := List.take_prefix apiErrorBodyLimit body
    refine .inr ⟨hne, _, callResult_apiError hstatus hne h,
      List.length_take_le _ _, ?_, hwhole⟩
    exact hpart.imp hstart.trans hstart.trans

/-- Resty reads a body to its limit unless a damage shows. -/
theorem execute_ok (hstatus : ¬ isSuccess resp.statusCode)
    (h : (roundTrip inflate reading resp).body.stream.fin = .eof
      ∨ (roundTrip inflate reading resp).body.Hidden reading.pace) :
    execute inflate reading resty resp
      = some (.ok (roundTrip inflate reading resp).body.kept) := by
  simp only [execute, body_roundTrip hstatus]
  exact readAll_ok reading.pace reading.room [] (Nat.lt_succ_self _) h

end Body

section Result

variable {inflate : Inflate} {reading : Reading} {resty : Resty}
  {resp : Response}

/-- `R` tells the status and the start of a body that is not damaged before
the limit. -/
theorem keepsStatus_of_intact (hstatus : ¬ isSuccess resp.statusCode)
    (hintact : Intact inflate reading.pace resp) :
    KeepsStatus inflate resp (callResult inflate reading resty resp) := by
  rcases @roundTrip_body inflate reading resp hstatus with
    ⟨raw, limit, hbody, hraw, hwhole, hlimit⟩
      | ⟨hgzip, members, hheader, hdecoded, hbody⟩
  · have hexecute := @execute_ok inflate reading resty resp hstatus
      (.inl (by rw [hbody]))
    rw [hbody] at hexecute
    refine keepsStatus_of_execute hstatus hexecute (.inr ?_) ?_
    · cases limit with
      | none => exact hraw
      | some n => exact List.IsPrefix.trans ( List.take_prefix n raw) hraw
    · intro hfin
      rw [hwhole hfin]
      cases limit with
      | none => rfl
      | some n =>
          rw [hlimit n rfl]
          exact Body.take_kept _ _
  · have hexecute := @execute_ok inflate reading resty resp hstatus
      (by rw [hbody]; exact hintact hgzip members hheader)
    rw [hbody] at hexecute
    refine keepsStatus_of_execute hstatus hexecute (.inl ?_) ?_
    · rw [hdecoded]
      exact List.take_prefix _ _
    · intro _
      rw [hdecoded]
      exact Body.take_kept _ _

/-- A damage before the limit fails the call: the status is lost. -/
theorem callResult_damaged {members : GoString} {err : GzipError}
    (hstatus : ¬ isSuccess resp.statusCode)
    (hgzip : isGzip resp.contentEncoding)
    (hheader : readHeader resp.body = .ok members)
    (hdamage : (gunzip inflate members).fin = .failed err)
    (hshown : ¬ (Body.mk (gunzip inflate members)
      (some apiErrorBodyLimit)).Hidden reading.pace) :
    callResult inflate reading resty resp = some (.failed err) := by
  -- a body with a header is not empty, so its length is not zero
  have hlength : resp.contentLength ≠ 0 := by
    intro hzero
    rw [resp.no_body hzero] at hheader
    cases hheader
  have hbody : (roundTrip inflate reading resp).body
      = ⟨gunzip inflate members, some apiErrorBodyLimit⟩ := by
    simp only [roundTrip, if_neg (not_or.mpr ⟨hstatus, hlength⟩),
      if_pos hgzip, hheader]
  have hread := readAll_failed reading.pace reading.room []
    (b := ⟨gunzip inflate members, some apiErrorBodyLimit⟩)
    (Nat.lt_succ_self _) hdamage hshown
  simp only [callResult, execute, body_roundTrip hstatus, hbody, hread,
    Option.map_some]

end Result

/-- Outside 2xx, whatever the readers do, `R` tells the status and the start
of the body if and only if the body is not damaged before the limit. -/
theorem keepsStatus_iff_intact (inflate : Inflate) (reading : Reading)
    (resty : Resty) (resp : Response) (hstatus : ¬ isSuccess resp.statusCode) :
    KeepsStatus inflate resp (callResult inflate reading resty resp)
      ↔ Intact inflate reading.pace resp := by
  refine ⟨?_, keepsStatus_of_intact hstatus⟩
  intro hkeeps hgzip members hheader
  by_cases hshown : (Body.mk (gunzip inflate members)
      (some apiErrorBodyLimit)).Hidden reading.pace
  · exact .inr hshown
  · cases hfin : (gunzip inflate members).fin with
    | eof => exact .inl rfl
    | failed err =>
        -- the call failed, so its result does not tell the status
        rw [callResult_damaged hstatus hgzip hheader hfin hshown] at hkeeps
        rcases hkeeps with ⟨-, hresult⟩ | ⟨-, body, hresult, -⟩
        · cases hresult
        · cases hresult

/-- Readers that deliver a byte at a time. -/
def bytewise : Reading := ⟨⟨fun _ _ => 1, false⟩, fun _ => 0, 4096⟩

/-- Resty where no label is left. -/
def Resty.passing : Resty := ⟨fun d => .ok d.body, fun _ _ => rfl⟩

/-- A status 500 with a gzip body: the ten bytes of a header, a stored block
of five bytes, and the checksum. -/
def helloPage : Response where
  statusCode := 500
  contentLength := -1
  contentEncoding := ascii "GZip"
  body := [0x1f, 0x8b, 8, 0, 0, 0, 0, 0, 0, 0xff] ++ [1, 5, 0, 0xfa, 0xff]
    ++ ascii "hello" ++ [0x86, 0xa6, 0x10, 0x36, 5, 0, 0, 0]
  no_body := nofun

theorem keepsStatus_iff_intact_hello :
    ¬ isSuccess helloPage.statusCode
      ∧ (Response.decoded .stored helloPage).data = ascii "hello"
      ∧ KeepsStatus .stored helloPage
        (callResult .stored bytewise .passing helloPage) := by
  have hstatus : ¬ isSuccess helloPage.statusCode := by decide
  have hmembers : readHeader helloPage.body
      = .ok (helloPage.body.drop 10) := rfl
  refine ⟨hstatus, by decide +kernel,
    (keepsStatus_iff_intact .stored bytewise .passing helloPage
      hstatus).mpr ?_⟩
  intro _ members h
  cases hmembers.symm.trans h
  exact .inl (by decide +kernel)

/-- `helloPage`, cut after two bytes of the stored block. -/
def truncatedPage : Response where
  statusCode := 500
  contentLength := -1
  contentEncoding := ascii "gzip"
  body := [0x1f, 0x8b, 8, 0, 0, 0, 0, 0, 0, 0xff] ++ [1, 5, 0, 0xfa, 0xff]
    ++ ascii "he"
  no_body := nofun

/-- The caller of `R` gets `api call failed: unexpected EOF` for a response
with the status 500. -/
theorem truncated_hides_status :
    ¬ isSuccess truncatedPage.statusCode
      ∧ callResult .stored bytewise .passing truncatedPage
        = some (.failed .unexpectedEOF)
      ∧ ¬ KeepsStatus .stored truncatedPage
        (callResult .stored bytewise .passing truncatedPage) := by
  have hresult : callResult .stored bytewise .passing truncatedPage
      = some (.failed .unexpectedEOF) := by decide +kernel
  refine ⟨by decide, hresult, ?_⟩
  rw [hresult]
  rintro (⟨hstatus, -⟩ | ⟨-, body, hbody, -⟩)
  · exact absurd hstatus (by decide)
  · cases hbody

end Tokyo3Base.Api
