import SrtLiveServer.PlayerAccept
import SrtLiveServer.PushTarget

/-! The app and the stream that a publisher's two pusher managers are given: the static one
by the listener, which has composed the publisher's key of them, the dynamic one by the
publisher, which takes them from its key again. -/
namespace SrtLiveServer.DynamicPusher
open Bytes StreamId PlayerKeyGate PlayerAccept PushUrl PushTarget Template

/-- `key_app` of `handler`. -/
def appUpliveOf (host app : Text) : Text := strlcpy (keyApp host app) urlMaxLen

/-- `key_stream_name`, which `set_map_data` copies to the publisher. -/
def mapDataKey (host app stream : Text) : Text := strlcpy (keyApp (appUpliveOf host app) stream) urlMaxLen

/-- What `finish_publisher_accept` hands to `add_relay_manager`. -/
def staticPair (host app stream : Text) : Text × Text := (appUpliveOf host app,stream)

/-- The split of `try_spawn_dynamic_pusher`; `none` is a malformed key. -/
def splitKey (key : Text) : Option (Text × Text) :=
  let front := key.takeWhile fun b => b != byte '/'
  if front = key ∨ front = [] then none else some (front,key.drop (front.length + 1))

def dynamicPair (host app stream : Text) : Option (Text × Text) := splitKey (mapDataKey host app stream)

theorem splitKey_bare {key : Text} {pair : Text × Text} (split : splitKey key = some pair) : byte '/' ∉ pair.1 := by
  unfold splitKey at split
  dsimp only at split
  split at split
  · cases split
  · cases split
    intro among
    have kept := List.mem_takeWhile_imp among
    simp at kept

theorem splitKey_joined {front back : Text} (bare : byte '/' ∉ front) (some : front ≠ []) :
    splitKey (front ++ byte '/'::back) = .some (front,back) := by
  have taken : (front ++ byte '/'::back).takeWhile (fun b => b != byte '/') = front := takeWhile_separator bare back
  have longer : front ≠ front ++ byte '/'::back := by simp
  unfold splitKey
  dsimp only
  rw [taken,if_neg (not_or.mpr ⟨longer,some⟩)]
  have rest : (front ++ byte '/'::back).drop (front.length + 1) = back := by
    rw [List.drop_length_add_append]
    rfl
  rw [rest]

variable {host app stream : Text}

theorem Named.dynamicPair (named : Named host app stream) (fits : (streamKey host app stream).length < urlMaxLen) :
    dynamicPair host app stream = some (host,keyApp app stream) := by
  have appFits : (keyApp host app).length < urlMaxLen := by
    simp only [streamKey,keyApp,List.length_append] at fits ⊢
    omega
  have shape : streamKey host app stream = host ++ byte '/'::keyApp app stream := by simp [streamKey,keyApp,ascii]
  unfold DynamicPusher.dynamicPair mapDataKey appUpliveOf
  rw [strlcpy_short appFits]
  show splitKey (strlcpy (streamKey host app stream) urlMaxLen) = _
  rw [strlcpy_short fits,shape]
  exact splitKey_joined (safeName_slash named.host) (safeName_ne_nil host named.host)

theorem urlEncode_length_append (first second : Text) :
    (urlEncode (first ++ second)).length = (urlEncode first).length + (urlEncode second).length := by
  simp [urlEncode]

/-- With the app in front of it the stream name expands differently wherever it is used. -/
theorem connectUrl_ne (template url : Text) (app stream : Text) (token : none ∈ parts (cStr template))
    (dials : connectUrl template stream = some url) : connectUrl template (keyApp app stream) ≠ some url := by
  intro other
  have first := connectUrl_eq dials
  rw [connectUrl_eq other,← parts_cStr] at first
  have same := fill_injective _ token (List.append_cancel_left first)
  have longer : (urlEncode (keyApp app stream)).length = (urlEncode (app ++ ascii "/")).length + (urlEncode stream).length :=
    urlEncode_length_append _ _
  have slash : 0 < (urlEncode (ascii "/")).length := by decide
  rw [same,urlEncode_length_append] at longer
  omega

/-- The two pusher managers of a publisher never get the same pair, and no template with a
stream name in it is dialed alike by both. -/
theorem dynamic_pair_differs (named : Named host app stream) :
    dynamicPair host app stream ≠ some (keyApp host app,stream) ∧
      ((streamKey host app stream).length < urlMaxLen → staticPair host app stream = (keyApp host app,stream) ∧
        ∀ pair, dynamicPair host app stream = some pair → ∀ template url, none ∈ parts (cStr template) →
          connectUrl template stream = some url → connectUrl template pair.2 ≠ some url) := by
  constructor
  · intro same
    refine splitKey_bare same ?_
    simp [keyApp,ascii]
  · intro fits
    have appFits : (keyApp host app).length < urlMaxLen := by
      simp only [streamKey,keyApp,List.length_append] at fits ⊢
      omega
    refine ⟨by rw [staticPair,appUpliveOf,strlcpy_short appFits],fun pair split template url token dials => ?_⟩
    rw [Named.dynamicPair named fits] at split
    cases split
    exact connectUrl_ne template url app stream token dials

theorem dynamic_pair_differs_live :
    dynamicPair (ascii "h") (ascii "live") (ascii "cam") ≠ some (ascii "h/live",ascii "cam") :=
  (@dynamic_pair_differs (ascii "h") (ascii "live") (ascii "cam")
    ⟨by decide,by decide,by decide⟩).1

theorem dynamic_pair_live_splits_behind_host :
    ¬ ∀ host app stream : Text, Named host app stream → dynamicPair host app stream = some (keyApp host app,stream) ∧
      ∀ pair, dynamicPair host app stream = some pair → ∀ template, connectUrl template pair.2 = connectUrl template stream := by
  intro claim
  have split := (claim (ascii "h") (ascii "live") (ascii "cam") ⟨by decide,by decide,by decide⟩).1
  rw [show dynamicPair (ascii "h") (ascii "live") (ascii "cam") = some (ascii "h",ascii "live/cam") by decide] at split
  exact absurd split (by decide)

end SrtLiveServer.DynamicPusher
