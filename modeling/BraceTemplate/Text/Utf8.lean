import BraceTemplate.Text.Cut

/-! Texts as octets. -/
namespace BraceTemplate.Text

def toUtf8 (t : Text) : ByteArray := (String.ofList t).toUTF8

/-- Nothing if the octets are not strictly UTF-8. -/
def ofUtf8? (bytes : ByteArray) : Option Text := bytes.utf8Decode?.map Array.toList

theorem ofUtf8?_toUtf8 (t : Text) : ofUtf8? (toUtf8 t) = some t := by
  simp [ofUtf8?, toUtf8]

theorem toList_data_toUtf8 (t : Text) :
    (toUtf8 t).data.toList = t.flatMap String.utf8EncodeChar := by
  simp [toUtf8, List.utf8Encode]

end BraceTemplate.Text
