import IdeExport.Data.Codec
import IdeExport.Snapshot.Basic
/-!
# Records of a snapshot

How everything in a snapshot is written as data and read from it.  The fields of each record stand in the order
in which an array gives them.
-/
namespace IdeExport

open Codec

def Language.codec : Codec Language := Codec.text.imap Language.ofTag Language.tag

def TargetKind.codec : Codec TargetKind := named TargetKind.name TargetKind.ofName?

def RefreshStyle.codec : Codec RefreshStyle := named RefreshStyle.name RefreshStyle.ofName?

/-! ## Projects -/

def SourceFile.codec : Codec SourceFile :=
  record ["path", "language", "generated"]
    (fun s => [text.encode s.path, (nullable Language.codec).encode s.language, bool.encode s.generated])
    (fun fields => do
      let path ← text.field "path" fields
      let language ← (nullable Language.codec).fieldOr none "language" fields
      let generated ← bool.fieldOr false "generated" fields
      return { path, language, generated })

def Target.codec : Codec Target :=
  record
    ["name", "kind", "gui", "sources", "directory_defines", "defines", "compile_flags", "include_directories",
      "link_libraries", "location", "locations", "build_directory", "support_directory"]
    (fun t =>
      [text.encode t.name, TargetKind.codec.encode t.kind, bool.encode t.gui,
        (list SourceFile.codec).encode t.sources, (list text).encode t.directoryDefines,
        (list text).encode t.defines, (list text).encode t.compileFlags,
        (list text).encode t.includeDirectories, (list text).encode t.linkLibraries,
        (nullable text).encode t.location, (map text).encode t.locations, text.encode t.buildDirectory,
        (nullable text).encode t.supportDirectory])
    (fun fields => do
      let name ← text.field "name" fields
      let kind ← TargetKind.codec.field "kind" fields
      let gui ← bool.fieldOr false "gui" fields
      let sources ← (list SourceFile.codec).fieldOr [] "sources" fields
      let directoryDefines ← (list text).fieldOr [] "directory_defines" fields
      let defines ← (list text).fieldOr [] "defines" fields
      let compileFlags ← (list text).fieldOr [] "compile_flags" fields
      let includeDirectories ← (list text).fieldOr [] "include_directories" fields
      let linkLibraries ← (list text).fieldOr [] "link_libraries" fields
      let location ← (nullable text).fieldOr none "location" fields
      let locations ← (map text).fieldOr {} "locations" fields
      let buildDirectory ← text.field "build_directory" fields
      let supportDirectory ← (nullable text).fieldOr none "support_directory" fields
      return { name, kind, gui, sources, directoryDefines, defines, compileFlags, includeDirectories,
               linkLibraries, location, locations, buildDirectory, supportDirectory })

def Project.codec : Codec Project :=
  record ["name", "output_directory", "list_files", "targets"]
    (fun p =>
      [text.encode p.name, text.encode p.outputDirectory, (list text).encode p.listFiles,
        (list Target.codec).encode p.targets])
    (fun fields => do
      let name ← text.field "name" fields
      let outputDirectory ← text.field "output_directory" fields
      let listFiles ← (list text).fieldOr [] "list_files" fields
      let targets ← (list Target.codec).fieldOr [] "targets" fields
      return { name, outputDirectory, listFiles, targets })

/-! ## Settings and policy -/

def BuildSettings.default : BuildSettings := { homeDirectory := [], homeOutputDirectory := [] }

def BuildSettings.codec : Codec BuildSettings :=
  record
    ["home_directory", "home_output_directory", "module_root", "make_program", "configure_command", "build_type",
      "runtime_output_directory", "executable_output_path", "c_compiler_id", "cxx_compiler_id", "languages",
      "source_extensions", "header_extensions", "c_system_include_dirs", "cxx_system_include_dirs",
      "c_shared_library_flags", "cxx_shared_library_flags"]
    (fun s =>
      [text.encode s.homeDirectory, text.encode s.homeOutputDirectory, (nullable text).encode s.moduleRoot,
        (nullable text).encode s.makeProgram, (nullable text).encode s.configureCommand,
        (nullable text).encode s.buildType, (nullable text).encode s.runtimeOutputDirectory,
        (nullable text).encode s.executableOutputPath, (nullable text).encode s.cCompilerId,
        (nullable text).encode s.cxxCompilerId, (list Language.codec).encode s.languages,
        (list text).encode s.sourceExtensions, (list text).encode s.headerExtensions,
        (list text).encode s.cSystemIncludes, (list text).encode s.cxxSystemIncludes,
        (list text).encode s.cSharedLibraryFlags, (list text).encode s.cxxSharedLibraryFlags])
    (fun fields => do
      let homeDirectory ← text.field "home_directory" fields
      let homeOutputDirectory ← text.field "home_output_directory" fields
      let moduleRoot ← (nullable text).fieldOr none "module_root" fields
      let makeProgram ← (nullable text).fieldOr none "make_program" fields
      let configureCommand ← (nullable text).fieldOr none "configure_command" fields
      let buildType ← (nullable text).fieldOr none "build_type" fields
      let runtimeOutputDirectory ← (nullable text).fieldOr none "runtime_output_directory" fields
      let executableOutputPath ← (nullable text).fieldOr none "executable_output_path" fields
      let cCompilerId ← (nullable text).fieldOr none "c_compiler_id" fields
      let cxxCompilerId ← (nullable text).fieldOr none "cxx_compiler_id" fields
      let languages ← (list Language.codec).fieldOr BuildSettings.default.languages "languages" fields
      let sourceExtensions ← (list text).fieldOr BuildSettings.default.sourceExtensions "source_extensions" fields
      let headerExtensions ← (list text).fieldOr BuildSettings.default.headerExtensions "header_extensions" fields
      let cSystemIncludes ← (list text).fieldOr [] "c_system_include_dirs" fields
      let cxxSystemIncludes ← (list text).fieldOr [] "cxx_system_include_dirs" fields
      let cSharedLibraryFlags ← (list text).fieldOr [] "c_shared_library_flags" fields
      let cxxSharedLibraryFlags ← (list text).fieldOr [] "cxx_shared_library_flags" fields
      return { homeDirectory, homeOutputDirectory, moduleRoot, makeProgram, configureCommand, buildType,
               runtimeOutputDirectory, executableOutputPath, cCompilerId, cxxCompilerId, languages,
               sourceExtensions, headerExtensions, cSystemIncludes, cxxSystemIncludes, cSharedLibraryFlags,
               cxxSharedLibraryFlags })

def ExportPolicy.codec : Codec ExportPolicy :=
  record ["unit_targets", "refresh", "root_list_files", "extension"]
    (fun p =>
      [bool.encode p.unitTargets, RefreshStyle.codec.encode p.refresh, bool.encode p.rootListFiles,
        text.encode p.extension])
    (fun fields => do
      let unitTargets ← bool.fieldOr true "unit_targets" fields
      let refresh ← RefreshStyle.codec.fieldOr .extraCommands "refresh" fields
      let rootListFiles ← bool.fieldOr false "root_list_files" fields
      let extension ← text.fieldOr "cbp" "extension" fields
      return { unitTargets, refresh, rootListFiles, extension })

/-! ## The snapshot -/

def Snapshot.codec : Codec Snapshot :=
  record ["build", "export", "projects"]
    (fun s =>
      [BuildSettings.codec.encode s.build, ExportPolicy.codec.encode s.policy,
        (list Project.codec).encode s.projects])
    (fun fields => do
      let build ← BuildSettings.codec.field "build" fields
      let policy ← ExportPolicy.codec.fieldOr {} "export" fields
      let projects ← (list Project.codec).fieldOr [] "projects" fields
      return { build, policy, projects })

end IdeExport
