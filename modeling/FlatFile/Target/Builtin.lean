import FlatFile.Target.Language

/-!
# Built-in templates

The templates of the record type and of the line parser, for every target language.  They are listed
line by line, with `‹` and `›` for single braces and `⟪` and `⟫` for doubled ones; `source` puts the
braces in.
-/

namespace FlatFile

/-- The two files that are generated. -/
inductive ArtifactKind where
  | record
  | parser
  deriving DecidableEq, Repr

namespace ArtifactKind

/-- The name of a kind. -/
def name : ArtifactKind → String
  | record => "record"
  | parser => "parser"

/-- Both kinds. -/
def all : List ArtifactKind := [record, parser]

/-- The file that holds the template of a kind. -/
def templateFile : ArtifactKind → String
  | record => "record.tmpl"
  | parser => "parser.tmpl"

end ArtifactKind

namespace Target.Builtin

/-- The braces a bracket stands for. -/
def braces (c : Char) : List Char :=
  if c = '‹' then ['\x7b']
  else if c = '›' then ['\x7d']
  else if c = '⟪' then ['\x7b', '\x7b']
  else if c = '⟫' then ['\x7d', '\x7d']
  else [c]

/-- The source that lines stand for. -/
def sourceOf (lines : List String) : String :=
  String.ofList (lines.flatMap fun l => l.toList.flatMap braces ++ ['\n'])

/-- The template of the Kotlin record type. -/
def kotlinRecord : List String :=
  ["⟪#package⟫",
   "package ⟪package⟫",
   "",
   "⟪/package⟫",
   "class ⟪record_name⟫(⟪#columns⟫private val ⟪name⟫: String⟪^last⟫, ⟪/last⟫⟪/columns⟫) ‹",
   "    override fun toString(): String ‹",
   "        return \"⟪record_name⟫ ‹⟪#columns⟫⟪name⟫='$⟪name⟫'⟪^last⟫, ⟪/last⟫⟪/columns⟫›\"",
   "    ›",
   "›"]

/-- The template of the Kotlin line parser. -/
def kotlinParser : List String :=
  ["⟪#package⟫",
   "package ⟪package⟫",
   "",
   "⟪/package⟫",
   "import java.io.File",
   "import java.io.IOException",
   "",
   "class ⟪parser_name⟫ ‹",
   "    @Throws(IOException::class)",
   "    fun parseFile(filePath: String): List<⟪record_name⟫> ‹",
   "        val records = mutableListOf<⟪record_name⟫>()",
   "",
   "        File(filePath).bufferedReader().useLines ‹ lines ->",
   "            lines.forEach ‹ line ->",
   "                val record = parseLine(line)",
   "                if (record != null) ‹",
   "                    records.add(record)",
   "                › else ‹",
   "                    println(\"Data '$line' is not parsed as it does not follow the schema.\")",
   "                ›",
   "            ›",
   "        ›",
   "        return records",
   "    ›",
   "",
   "    fun parseLine(line: String): ⟪record_name⟫? ‹",
   "        if (line.length != ⟪line_end⟫) ‹",
   "            return null",
   "        ›",
   "        return ⟪record_name⟫(",
   "            ⟪#columns⟫",
   "            ⟪name⟫ = extractField(line, ⟪offset⟫, ⟪end⟫),",
   "            ⟪/columns⟫",
   "        )",
   "    ›",
   "",
   "    private fun extractField(line: String, start: Int, end: Int): String ‹",
   "        return line.substring(start, end).trim()",
   "    ›",
   "›"]

/-- The template of the Java record type. -/
def javaRecord : List String :=
  ["⟪#package⟫",
   "package ⟪package⟫;",
   "",
   "⟪/package⟫",
   "public class ⟪record_name⟫ ‹",
   "⟪#columns⟫",
   "    private final String ⟪name⟫;",
   "⟪/columns⟫",
   "",
   "    public ⟪record_name⟫(⟪#columns⟫String ⟪name⟫⟪^last⟫, ⟪/last⟫⟪/columns⟫) ‹",
   "⟪#columns⟫",
   "        this.⟪name⟫ = ⟪name⟫;",
   "⟪/columns⟫",
   "    ›",
   "",
   "⟪#columns⟫",
   "    public String get⟪pascal_name⟫() ‹",
   "        return ⟪name⟫;",
   "    ›",
   "",
   "⟪/columns⟫",
   "    @Override",
   "    public String toString() ‹",
   "        return \"⟪record_name⟫ ‹\" +",
   "⟪#columns⟫",
   "                \"⟪^first⟫, ⟪/first⟫⟪name⟫='\" + ⟪name⟫ + \"'\" +",
   "⟪/columns⟫",
   "                \"›\";",
   "    ›",
   "›"]

/-- The template of the Java line parser. -/
def javaParser : List String :=
  ["⟪#package⟫",
   "package ⟪package⟫;",
   "",
   "⟪/package⟫",
   "import java.io.BufferedReader;",
   "import java.io.FileReader;",
   "import java.io.IOException;",
   "import java.util.ArrayList;",
   "import java.util.List;",
   "",
   "public class ⟪parser_name⟫ ‹",
   "    public static final int LINE_LENGTH = ⟪line_end⟫;",
   "",
   "    public List<⟪record_name⟫> parseFile(String filePath) throws IOException ‹",
   "        List<⟪record_name⟫> records = new ArrayList<>();",
   "        try (BufferedReader reader = new BufferedReader(new FileReader(filePath))) ‹",
   "            String line;",
   "            while ((line = reader.readLine()) != null) ‹",
   "                ⟪record_name⟫ parsed = parseLine(line);",
   "                if (parsed != null) ‹",
   "                    records.add(parsed);",
   "                › else ‹",
   "                    System.out.println(\"Data '\" + line + \"' is not parsed as it does not follow the schema.\");",
   "                ›",
   "            ›",
   "        ›",
   "        return records;",
   "    ›",
   "",
   "    public ⟪record_name⟫ parseLine(String line) ‹",
   "        if (line.length() != LINE_LENGTH) ‹",
   "            return null;",
   "        ›",
   "        return new ⟪record_name⟫(",
   "⟪#columns⟫",
   "                extractField(line, ⟪offset⟫, ⟪end⟫)⟪^last⟫,⟪/last⟫",
   "⟪/columns⟫",
   "        );",
   "    ›",
   "",
   "    private static String extractField(String line, int start, int end) ‹",
   "        return line.substring(start, end).trim();",
   "    ›",
   "›"]

/-- The template of the Rust record type. -/
def rustRecord : List String :=
  ["use std::fmt;",
   "",
   "#[allow(non_snake_case)]",
   "#[derive(Debug, Clone, PartialEq, Eq)]",
   "pub struct ⟪record_name⟫ ‹",
   "⟪#columns⟫",
   "    pub ⟪name⟫: String,",
   "⟪/columns⟫",
   "›",
   "",
   "impl fmt::Display for ⟪record_name⟫ ‹",
   "    fn fmt(&self, f: &mut fmt::Formatter<'_>) -> fmt::Result ‹",
   "        f.write_str(\"⟪record_name⟫ ‹\")?;",
   "⟪#columns⟫",
   "        write!(f, \"⟪^first⟫, ⟪/first⟫⟪name⟫='‹›'\", self.⟪name⟫)?;",
   "⟪/columns⟫",
   "        f.write_str(\"›\")",
   "    ›",
   "›"]

/-- The template of the Rust line parser. -/
def rustParser : List String :=
  ["use std::io::BufRead;",
   "",
   "use super::⟪record_name⟫;",
   "",
   "pub struct ⟪parser_name⟫;",
   "",
   "impl ⟪parser_name⟫ ‹",
   "    pub const LINE_LENGTH: usize = ⟪line_end⟫;",
   "",
   "    pub fn parse_line(line: &str) -> Option<⟪record_name⟫> ‹",
   "        let chars: Vec<char> = line.chars().collect();",
   "        if chars.len() != Self::LINE_LENGTH ‹",
   "            return None;",
   "        ›",
   "        let field = |start: usize, end: usize| chars[start..end].iter().collect::<String>().trim().to_string();",
   "        Some(⟪record_name⟫ ‹",
   "⟪#columns⟫",
   "            ⟪name⟫: field(⟪offset⟫, ⟪end⟫),",
   "⟪/columns⟫",
   "        ›)",
   "    ›",
   "",
   "    pub fn parse_reader<R: BufRead>(reader: R) -> std::io::Result<Vec<⟪record_name⟫>> ‹",
   "        let mut records = Vec::new();",
   "        for line in reader.lines() ‹",
   "            let line = line?;",
   "            match Self::parse_line(&line) ‹",
   "                Some(record) => records.push(record),",
   "                None => println!(\"Data '‹›' is not parsed as it does not follow the schema.\", line),",
   "            ›",
   "        ›",
   "        Ok(records)",
   "    ›",
   "›"]

/-- The lines of the built-in template of a language and a kind. -/
def lines : Language → ArtifactKind → List String
  | .kotlin, .record => kotlinRecord
  | .kotlin, .parser => kotlinParser
  | .java, .record => javaRecord
  | .java, .parser => javaParser
  | .rust, .record => rustRecord
  | .rust, .parser => rustParser

/-- The source of the built-in template of a language and a kind. -/
def source (language : Language) (kind : ArtifactKind) : String := sourceOf (lines language kind)

end Target.Builtin

end FlatFile
